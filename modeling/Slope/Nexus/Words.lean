import Slope.Lib.Field
import Slope.Nexus.Client

/-!
# `Nexus.Words` — what the kernel can read out of the words it is sent

The client packs its parameters into 64-bit words before it sends them: hints for the scheduler, handles of tasks, the
arguments of an entanglement, a duration. Each word is a layout of `Lib.Field`, so what it still tells is what
`unpack` gives back: everything, but for the bits of a phase and of a coherence above the tenth. The status that the
kernel sends of a service is read by its layout too.
-/

namespace Slope.Nexus

open Word

/-! ## Scheduler hints -/

inductive Priority where
  | idle
  | background
  | normal
  | interactive
  | critical
  | nexus
deriving DecidableEq

def Priority.mass : Priority → U16
  | idle => 0x1000
  | background => 0x3000
  | normal => 0x6000
  | interactive => 0x9000
  | critical => 0xd000
  | nexus => 0xffff

structure PhaseHint where
  phaseBin : U16
  coherence : U16
  priority : Priority
  flags : U16

def PhaseHint.packed (hint : PhaseHint) : U64 :=
  (hint.phaseBin.setWidth 64 &&& 0x03ff) ||| (hint.coherence.setWidth 64 &&& 0x03ff) <<< 10
    ||| hint.priority.mass.setWidth 64 <<< 20 ||| hint.flags.setWidth 64 <<< 36

/-- The two words of `sleep_ns`. -/
def sleepWords (nanoseconds : U64) : U64 × U64 :=
  ((nanoseconds.setWidth 32).setWidth 64, ((nanoseconds >>> 32).setWidth 32).setWidth 64)

/-! ## Nexus commands -/

def taskHandle (slot generation : U16) : U64 := slot.setWidth 64 ||| generation.setWidth 64 <<< 16

/-- The calls of a nexus client that end in `transact`. -/
inductive NexusRequest where
  | queryStats
  | attachTask (task packedHint : U64)
  | entangle (taskA taskB : U64) (phaseBin : U16) (flags reQ16 imQ16 : U32)
  | setCollapseThreshold (threshold : U64)
  | setPriorityMass (mass : U16)
  | offerKairos (pairIndex : U64)

/-- What a call hands to `transact`. -/
def NexusRequest.command : NexusRequest → NexusOpcode × Vector U64 4
  | queryStats => (.queryStats, #v[0, 0, 0, 0])
  | attachTask task packedHint => (.attachTask, #v[task, packedHint, 0, 0])
  | entangle taskA taskB phaseBin flags reQ16 imQ16 =>
    let phaseAndFlags := phaseBin.setWidth 64 ||| flags.setWidth 64 <<< 32
    let amplitude := reQ16.setWidth 64 ||| imQ16.setWidth 64 <<< 32
    (.entangle, #v[taskA, taskB, phaseAndFlags, amplitude])
  | setCollapseThreshold threshold => (.setCollapseThreshold, #v[threshold, 0, 0, 0])
  | setPriorityMass mass => (.setPriorityMass, #v[mass.setWidth 64, 0, 0, 0])
  | offerKairos pairIndex => (.offerKairos, #v[pairIndex, 0, 0, 0])

/-! ## The status of a service -/

inductive CrestServiceState where
  | running
deriving DecidableEq

structure CrestServiceStatus where
  state : CrestServiceState
  pid : U32
deriving DecidableEq

def statusRunning : U8 := 1

def CrestServiceStatus.decode (word : U64) : Option CrestServiceStatus :=
  if word.setWidth 8 = statusRunning then
    let pid := (word >>> 8).setWidth 32
    if pid ≠ 0 then some ⟨.running, pid⟩ else none
  else none

/-! ## Layouts -/

variable {n : Nat}

/-- A value that is widened keeps to its own width, and to any larger one. -/
theorem toNat_widened {m : Nat} (hn : n ≤ m) (hm : m ≤ 64) (v : BitVec n) :
    (v.setWidth 64).toNat = v.toNat % 2 ^ m := by
  have hlt : v.toNat < 2 ^ m := Nat.lt_of_lt_of_le v.isLt (Nat.pow_le_pow_right (by decide) hn)
  have hword : v.toNat < 2 ^ 64 := Nat.lt_of_lt_of_le hlt (Nat.pow_le_pow_right (by decide) hm)
  rw [BitVec.toNat_setWidth, Nat.mod_eq_of_lt hword, Nat.mod_eq_of_lt hlt]

/-- The mask keeps ten bits. -/
theorem toNat_masked (hn : n ≤ 64) (v : BitVec n) : (v.setWidth 64 &&& 0x03ff).toNat = v.toNat % 2 ^ 10 := by
  rw [BitVec.toNat_and, toNat_widened (Nat.le_refl n) hn, Nat.mod_eq_of_lt v.isLt]
  exact Nat.and_two_pow_sub_one_eq_mod v.toNat 10

def PhaseHint.layout : List Nat := [10, 10, 16, 16]

def PhaseHint.fields (hint : PhaseHint) : List Nat :=
  [hint.phaseBin.toNat, hint.coherence.toNat, hint.priority.mass.toNat, hint.flags.toNat]

/-- A hint is packed field by field. -/
theorem PhaseHint.toNat_packed (hint : PhaseHint) : hint.packed.toNat = pack layout hint.fields := by
  have hphase := toNat_field (toNat_masked (by decide) hint.phaseBin)
  have hcoherence := toNat_push (k := 10) hphase rfl rfl (toNat_masked (by decide) hint.coherence) (by decide)
  have hmass := toNat_push (k := 20) hcoherence rfl rfl
    (toNat_widened (m := 16) (by decide) (by decide) hint.priority.mass) (by decide)
  unfold packed
  exact toNat_push (k := 36) hmass rfl rfl (toNat_widened (m := 16) (by decide) (by decide) hint.flags) (by decide)

theorem PhaseHint.packed_lt (hint : PhaseHint) : hint.packed.toNat < 2 ^ 52 := by
  rw [toNat_packed]
  exact pack_lt layout hint.fields

theorem PhaseHint.unpack_packed (hint : PhaseHint) :
    unpack layout hint.packed.toNat = [hint.phaseBin.toNat % 1024, hint.coherence.toNat % 1024,
      hint.priority.mass.toNat, hint.flags.toNat] := by
  have hlen : hint.fields.length = layout.length := rfl
  have hmass : hint.priority.mass.toNat % 2 ^ 16 = hint.priority.mass.toNat := Nat.mod_eq_of_lt hint.priority.mass.isLt
  have hflags : hint.flags.toNat % 2 ^ 16 = hint.flags.toNat := Nat.mod_eq_of_lt hint.flags.isLt
  rw [toNat_packed, unpack_pack layout hint.fields hlen]
  simp only [layout, fields, List.zipWith_cons_cons, List.zipWith_nil_left, hmass, hflags]
  rfl

theorem Priority.mass_injective {p p' : Priority} (h : p.mass = p'.mass) : p = p' := by
  cases p <;> cases p' <;> first | rfl | cases h

/-- Two hints are packed alike if they differ only above the tenth bit of the phase or of the coherence. -/
theorem PhaseHint.packed_eq_iff {hint hint' : PhaseHint} :
    hint.packed = hint'.packed ↔ hint.phaseBin.toNat % 1024 = hint'.phaseBin.toNat % 1024 ∧
      hint.coherence.toNat % 1024 = hint'.coherence.toNat % 1024 ∧
      hint.priority = hint'.priority ∧ hint.flags = hint'.flags := by
  constructor
  · intro h
    have hunpack := hint.unpack_packed
    rw [h, hint'.unpack_packed] at hunpack
    simp only [List.cons.injEq, and_true] at hunpack
    obtain ⟨hphase, hcoherence, hmass, hflags⟩ := hunpack
    exact ⟨hphase.symm, hcoherence.symm, Priority.mass_injective (BitVec.toNat_inj.mp hmass.symm),
      BitVec.toNat_inj.mp hflags.symm⟩
  · rintro ⟨hphase, hcoherence, hpriority, hflags⟩
    have hlen : ∀ hint : PhaseHint, hint.fields.length = layout.length := fun _ => rfl
    rw [← BitVec.toNat_inj, toNat_packed, toNat_packed, pack_eq_iff (hlen _) (hlen _)]
    simp only [layout, fields, List.zipWith_cons_cons, Nat.reducePow, hphase, hcoherence, hpriority, hflags]

/-- Two values side by side, each with room for its bits. -/
theorem toNat_pair {m k : Nat} (hn : n ≤ k) (hm : k + m ≤ 64) (a : BitVec n) (b : BitVec m) :
    (a.setWidth 64 ||| b.setWidth 64 <<< k).toNat = pack [k, m] [a.toNat, b.toNat] := by
  have hlow := toNat_field (toNat_widened hn (by omega) a)
  exact toNat_push hlow rfl rfl (toNat_widened (Nat.le_refl m) (by omega) b) hm

theorem pair_inj {m k : Nat} (hn : n ≤ k) (hm : k + m ≤ 64) {a a' : BitVec n} {b b' : BitVec m}
    (h : a.setWidth 64 ||| b.setWidth 64 <<< k = a'.setWidth 64 ||| b'.setWidth 64 <<< k) : a = a' ∧ b = b' := by
  have hlow : ∀ v : BitVec n, v.toNat % 2 ^ k = v.toNat :=
    fun v => Nat.mod_eq_of_lt (Nat.lt_of_lt_of_le v.isLt (Nat.pow_le_pow_right (by decide) hn))
  have hhigh : ∀ v : BitVec m, v.toNat % 2 ^ m = v.toNat := fun v => Nat.mod_eq_of_lt v.isLt
  have hlen : ∀ (v : BitVec n) (v' : BitVec m), [v.toNat, v'.toNat].length = [k, m].length := fun _ _ => rfl
  rw [← BitVec.toNat_inj, toNat_pair hn hm, toNat_pair hn hm, pack_eq_iff (hlen _ _) (hlen _ _)] at h
  simp only [List.zipWith_cons_cons, List.zipWith_nil_left, List.cons.injEq, and_true, hlow, hhigh] at h
  exact ⟨BitVec.toNat_inj.mp h.1, BitVec.toNat_inj.mp h.2⟩

/-! ## Every word tells its parameters -/

/-- No two calls hand the same command to `transact`. -/
theorem NexusRequest.command_injective {r r' : NexusRequest} (h : r.command = r'.command) : r = r' := by
  obtain ⟨hopcode, harguments⟩ := Prod.ext_iff.mp h
  have hword := congrArg Vector.toList harguments
  cases r with
  | queryStats => cases r' <;> first | rfl | cases hopcode
  | attachTask task packedHint =>
      cases r' with
      | attachTask task' packedHint' =>
          simp only [command, Vector.toList_mk, List.cons.injEq] at hword
          rw [hword.1, hword.2.1]
      | _ => cases hopcode
  | entangle taskA taskB phaseBin flags reQ16 imQ16 =>
      cases r' with
      | entangle taskA' taskB' phaseBin' flags' reQ16' imQ16' =>
          simp only [command, Vector.toList_mk, List.cons.injEq] at hword
          obtain ⟨htaskA, htaskB, hphase, hamplitude, -⟩ := hword
          obtain ⟨hphaseBin, hflags⟩ := pair_inj (by decide) (by decide) hphase
          obtain ⟨hre, him⟩ := pair_inj (by decide) (by decide) hamplitude
          rw [htaskA, htaskB, hphaseBin, hflags, hre, him]
      | _ => cases hopcode
  | setCollapseThreshold threshold =>
      cases r' with
      | setCollapseThreshold threshold' =>
          simp only [command, Vector.toList_mk, List.cons.injEq] at hword
          rw [hword.1]
      | _ => cases hopcode
  | setPriorityMass mass =>
      cases r' with
      | setPriorityMass mass' =>
          simp only [command, Vector.toList_mk, List.cons.injEq] at hword
          have hmass := congrArg (BitVec.setWidth 16) hword.1
          rw [BitVec.setWidth_setWidth_of_le _ (by decide), BitVec.setWidth_setWidth_of_le _ (by decide),
            BitVec.setWidth_eq, BitVec.setWidth_eq] at hmass
          rw [hmass]
      | _ => cases hopcode
  | offerKairos pairIndex =>
      cases r' with
      | offerKairos pairIndex' =>
          simp only [command, Vector.toList_mk, List.cons.injEq] at hword
          rw [hword.1]
      | _ => cases hopcode

/-- A field that is read out of a word. -/
theorem toNat_extract (word : U64) (k m : Nat) : ((word >>> k).setWidth m).toNat = word.toNat / 2 ^ k % 2 ^ m := by
  rw [BitVec.toNat_setWidth, BitVec.toNat_ushiftRight, Nat.shiftRight_eq_div_pow]

/-- The two words of a duration are its halves. -/
theorem sleepWords_sum (ns : U64) : (sleepWords ns).1.toNat + 2 ^ 32 * (sleepWords ns).2.toNat = ns.toNat := by
  have hlow : (sleepWords ns).1.toNat = ns.toNat % 2 ^ 32 := by
    show ((ns.setWidth 32).setWidth 64).toNat = _
    rw [toNat_widened (m := 32) (by decide) (by decide), BitVec.toNat_setWidth, Nat.mod_mod]
  have hhigh : (sleepWords ns).2.toNat = ns.toNat / 2 ^ 32 % 2 ^ 32 := by
    show (((ns >>> 32).setWidth 32).setWidth 64).toNat = _
    rw [toNat_widened (m := 32) (by decide) (by decide), toNat_extract, Nat.mod_mod]
  have hlt : ns.toNat / 2 ^ 32 < 2 ^ 32 := Nat.div_lt_of_lt_mul ns.isLt
  rw [hlow, hhigh, Nat.mod_eq_of_lt hlt]
  exact Nat.mod_add_div _ _

theorem CrestServiceStatus.decode_eq_some {word : U64} {status : CrestServiceStatus} :
    decode word = some status ↔ unpack [8, 32] word.toNat = [1, status.pid.toNat] ∧ status.pid ≠ 0 := by
  have hstate : word.setWidth 8 = statusRunning ↔ word.toNat % 2 ^ 8 = 1 := by
    rw [← BitVec.toNat_inj, BitVec.toNat_setWidth]
    rfl
  have hpid : (word >>> 8).setWidth 32 = status.pid ↔ word.toNat / 2 ^ 8 % 2 ^ 32 = status.pid.toNat := by
    rw [← BitVec.toNat_inj, toNat_extract]
  have hfields : unpack [8, 32] word.toNat = [1, status.pid.toNat] ↔
      word.toNat % 2 ^ 8 = 1 ∧ word.toNat / 2 ^ 8 % 2 ^ 32 = status.pid.toNat := by
    simp only [unpack, List.cons.injEq, and_true]
  rw [hfields, ← hstate, ← hpid]
  obtain ⟨state, pid⟩ := status
  cases state
  unfold decode
  constructor
  · intro h
    split at h
    · next hrunning =>
      dsimp only at h
      split at h
      · next hne =>
        obtain rfl := (CrestServiceStatus.mk.inj (Option.some.inj h)).2
        exact ⟨⟨hrunning, rfl⟩, hne⟩
      · cases h
    · cases h
  · rintro ⟨⟨hrunning, rfl⟩, hne⟩
    rw [if_pos hrunning]
    exact if_pos hne

/-- **The words tell their parameters.** A hint unpacks to its priority, its flags and the low ten bits of its phase
    and of its coherence, and leaves the twelve high bits of its word clear; two hints are packed alike exactly if they
    agree in these. No two calls of a nexus client hand the same command to `transact`, no two tasks have the same
    handle, and the two words of a duration are the duration. And a service status is read from a word exactly if it
    has the running state in its low byte and, above it, the process id, which is not zero. -/
theorem words_faithful :
    (∀ hint : PhaseHint, hint.packed.toNat < 2 ^ 52 ∧
      unpack PhaseHint.layout hint.packed.toNat = [hint.phaseBin.toNat % 1024, hint.coherence.toNat % 1024,
        hint.priority.mass.toNat, hint.flags.toNat]) ∧
    (∀ hint hint' : PhaseHint, hint.packed = hint'.packed ↔
      hint.phaseBin.toNat % 1024 = hint'.phaseBin.toNat % 1024 ∧
      hint.coherence.toNat % 1024 = hint'.coherence.toNat % 1024 ∧
      hint.priority = hint'.priority ∧ hint.flags = hint'.flags) ∧
    (∀ r r' : NexusRequest, r.command = r'.command → r = r') ∧
    (∀ slot generation slot' generation', taskHandle slot generation = taskHandle slot' generation' →
      slot = slot' ∧ generation = generation') ∧
    (∀ ns, (sleepWords ns).1.toNat + 2 ^ 32 * (sleepWords ns).2.toNat = ns.toNat) ∧
    (∀ word status, CrestServiceStatus.decode word = some status ↔
      word.toNat % 256 = 1 ∧ word.toNat / 256 % 2 ^ 32 = status.pid.toNat ∧ status.pid ≠ 0) := by
  refine ⟨fun hint => ⟨hint.packed_lt, hint.unpack_packed⟩, fun _ _ => PhaseHint.packed_eq_iff,
    fun _ _ => NexusRequest.command_injective, ?_, sleepWords_sum, ?_⟩
  · intro slot generation slot' generation' h
    exact pair_inj (by decide) (by decide) h
  · intro word status
    rw [CrestServiceStatus.decode_eq_some]
    simp only [unpack, List.cons.injEq, and_true, and_assoc]
    rfl

end Slope.Nexus
