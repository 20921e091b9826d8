import Slope.Service.Certificate

/-!
# `Service.Forgery` — altering one field of a certificate

The root of a certificate absorbs eleven words: ten fields one by one, and the two 16-bit counters packed into
one word. `mix` is a permutation in the state and injective in the word, and the packing loses neither counter,
so no certificate that differs from an accepted one in exactly one field is accepted.
-/

namespace Slope.Service

/-! ## The absorbed words -/

theorem mix_injective_state (word : U64) : Function.Injective (mix · word) :=
  Mixer.xorMulMix_injective_state Mixer.finalizer mixMultiplier word

theorem mix_injective_word (state : U64) : Function.Injective (mix state) :=
  Mixer.xorMulMix_injective_word Mixer.finalizer mixMultiplier mixMultiplier_mul_inv state

/-- `u64::from(backlog_before) | (u64::from(admitted_before) << 16)` -/
def counterWord (backlogBefore admittedBefore : U16) : U64 :=
  backlogBefore.setWidth 64 ||| (admittedBefore.setWidth 64 <<< 16)

/-- The two counters do not overlap in the word. -/
theorem getLsbD_counterWord (backlog admitted : U16) {i : Nat} (hi : i < 16) :
    (counterWord backlog admitted).getLsbD i = backlog.getLsbD i ∧
      (counterWord backlog admitted).getLsbD (16 + i) = admitted.getLsbD i := by
  unfold counterWord
  constructor
  · simp only [BitVec.getLsbD_or, BitVec.getLsbD_setWidth, BitVec.getLsbD_shiftLeft]
    simp [hi, show i < 64 by omega]
  · have hhigh : backlog.getLsbD (16 + i) = false := BitVec.getLsbD_of_ge backlog (16 + i) (by omega)
    simp only [BitVec.getLsbD_or, BitVec.getLsbD_setWidth, BitVec.getLsbD_shiftLeft, hhigh]
    simp [show 16 + i < 64 by omega, show i < 64 by omega]

theorem counterWord_inj {b b' a a' : U16} (h : counterWord b a = counterWord b' a') : b = b' ∧ a = a' := by
  constructor
  · apply BitVec.eq_of_getLsbD_eq
    intro i hi
    rw [← (getLsbD_counterWord b a hi).1, h, (getLsbD_counterWord b' a' hi).1]
  · apply BitVec.eq_of_getLsbD_eq
    intro i hi
    rw [← (getLsbD_counterWord b a hi).2, h, (getLsbD_counterWord b' a' hi).2]

/-- The words of a certificate's root, in the order they are absorbed. -/
inductive RootWord where
  | reservationSequence | admittedTick | windowStart | counters | deterministicDelayTicks | uncertaintyGuardTicks
  | driftPenaltyTicks | delayBoundTicks | deadlineSlackTicks | curveRoot | calibrationRoot
deriving DecidableEq

namespace RootWord

def all : List RootWord :=
  [reservationSequence, admittedTick, windowStart, counters, deterministicDelayTicks, uncertaintyGuardTicks,
    driftPenaltyTicks, delayBoundTicks, deadlineSlackTicks, curveRoot, calibrationRoot]

def of (c : AdmissionCertificate) : RootWord → U64
  | reservationSequence => c.reservationSequence
  | admittedTick => c.admittedTick
  | windowStart => c.windowStart
  | counters => counterWord c.backlogBefore c.admittedBefore
  | deterministicDelayTicks => c.deterministicDelayTicks
  | uncertaintyGuardTicks => c.uncertaintyGuardTicks
  | driftPenaltyTicks => c.driftPenaltyTicks
  | delayBoundTicks => c.delayBoundTicks
  | deadlineSlackTicks => c.deadlineSlackTicks
  | curveRoot => c.curveRoot
  | calibrationRoot => c.calibrationRoot

theorem mem_all (w : RootWord) : w ∈ all := by
  cases w <;> decide

end RootWord

theorem admissionCertificateRoot_eq_foldl (secret : U64) (c : AdmissionCertificate) :
    admissionCertificateRoot secret c = (RootWord.all.map (RootWord.of c)).foldl mix secret := rfl

/-! ## Fields -/

/-- The thirteen fields of a certificate. -/
inductive CertificateField where
  | reservationSequence | admittedTick | windowStart | backlogBefore | admittedBefore | deterministicDelayTicks
  | uncertaintyGuardTicks | driftPenaltyTicks | delayBoundTicks | deadlineSlackTicks | curveRoot | calibrationRoot
  | certificateRoot
deriving DecidableEq

namespace CertificateField

def Differs (c c' : AdmissionCertificate) : CertificateField → Prop
  | reservationSequence => c.reservationSequence ≠ c'.reservationSequence
  | admittedTick => c.admittedTick ≠ c'.admittedTick
  | windowStart => c.windowStart ≠ c'.windowStart
  | backlogBefore => c.backlogBefore ≠ c'.backlogBefore
  | admittedBefore => c.admittedBefore ≠ c'.admittedBefore
  | deterministicDelayTicks => c.deterministicDelayTicks ≠ c'.deterministicDelayTicks
  | uncertaintyGuardTicks => c.uncertaintyGuardTicks ≠ c'.uncertaintyGuardTicks
  | driftPenaltyTicks => c.driftPenaltyTicks ≠ c'.driftPenaltyTicks
  | delayBoundTicks => c.delayBoundTicks ≠ c'.delayBoundTicks
  | deadlineSlackTicks => c.deadlineSlackTicks ≠ c'.deadlineSlackTicks
  | curveRoot => c.curveRoot ≠ c'.curveRoot
  | calibrationRoot => c.calibrationRoot ≠ c'.calibrationRoot
  | certificateRoot => c.certificateRoot ≠ c'.certificateRoot

/-- The word a field is absorbed in; the root itself is in none. -/
def word : CertificateField → Option RootWord
  | reservationSequence => some .reservationSequence
  | admittedTick => some .admittedTick
  | windowStart => some .windowStart
  | backlogBefore => some .counters
  | admittedBefore => some .counters
  | deterministicDelayTicks => some .deterministicDelayTicks
  | uncertaintyGuardTicks => some .uncertaintyGuardTicks
  | driftPenaltyTicks => some .driftPenaltyTicks
  | delayBoundTicks => some .delayBoundTicks
  | deadlineSlackTicks => some .deadlineSlackTicks
  | curveRoot => some .curveRoot
  | calibrationRoot => some .calibrationRoot
  | certificateRoot => none

theorem word_eq_none {f : CertificateField} (h : f.word = none) : f = certificateRoot := by
  cases f with
  | certificateRoot => rfl
  | _ => cases h

/-- A changed field changes the word it is absorbed in. -/
theorem of_ne {c c' : AdmissionCertificate} {f : CertificateField} {w : RootWord} (hw : f.word = some w)
    (hf : f.Differs c c') : RootWord.of c w ≠ RootWord.of c' w := by
  cases f with
  | backlogBefore =>
      obtain rfl := Option.some.inj hw
      exact fun h => hf (counterWord_inj h).1
  | admittedBefore =>
      obtain rfl := Option.some.inj hw
      exact fun h => hf (counterWord_inj h).2
  | certificateRoot => cases hw
  | _ =>
      obtain rfl := Option.some.inj hw
      exact hf

/-- A word none of whose fields changed is the same. -/
theorem of_eq {c c' : AdmissionCertificate} {w : RootWord}
    (hsame : ∀ f : CertificateField, f.word = some w → ¬ f.Differs c c') : RootWord.of c w = RootWord.of c' w := by
  cases w with
  | counters =>
      have hbacklog : c.backlogBefore = c'.backlogBefore := not_not.mp (hsame backlogBefore rfl)
      have hadmitted : c.admittedBefore = c'.admittedBefore := not_not.mp (hsame admittedBefore rfl)
      rw [RootWord.of, RootWord.of, hbacklog, hadmitted]
  | reservationSequence => exact not_not.mp (hsame reservationSequence rfl)
  | admittedTick => exact not_not.mp (hsame admittedTick rfl)
  | windowStart => exact not_not.mp (hsame windowStart rfl)
  | deterministicDelayTicks => exact not_not.mp (hsame deterministicDelayTicks rfl)
  | uncertaintyGuardTicks => exact not_not.mp (hsame uncertaintyGuardTicks rfl)
  | driftPenaltyTicks => exact not_not.mp (hsame driftPenaltyTicks rfl)
  | delayBoundTicks => exact not_not.mp (hsame delayBoundTicks rfl)
  | deadlineSlackTicks => exact not_not.mp (hsame deadlineSlackTicks rfl)
  | curveRoot => exact not_not.mp (hsame curveRoot rfl)
  | calibrationRoot => exact not_not.mp (hsame calibrationRoot rfl)

end CertificateField

/-! ## Alterations -/

section

variable {c c' : AdmissionCertificate} {f : CertificateField}

/-- Altering exactly one absorbed field alters the root. -/
theorem admissionCertificateRoot_ne (secret : U64) {w : RootWord} (hw : f.word = some w) (hf : f.Differs c c')
    (honly : ∀ g : CertificateField, g.Differs c c' → g = f) :
    admissionCertificateRoot secret c ≠ admissionCertificateRoot secret c' := by
  rw [admissionCertificateRoot_eq_foldl, admissionCertificateRoot_eq_foldl]
  refine Mixer.foldl_ne_of_one mix_injective_state mix_injective_word (by decide) w.mem_all
    (CertificateField.of_ne hw hf) ?_ secret
  intro w' _ hne
  apply CertificateField.of_eq
  intro g hg hdiff
  obtain rfl := honly g hdiff
  exact hne (Option.some.inj (hg.symm.trans hw))

/-- Altering the root alone leaves the words it is computed from. -/
theorem admissionCertificateRoot_eq (secret : U64)
    (honly : ∀ g : CertificateField, g.Differs c c' → g = .certificateRoot) :
    admissionCertificateRoot secret c = admissionCertificateRoot secret c' := by
  have hwords : RootWord.of c = RootWord.of c' := by
    funext w
    apply CertificateField.of_eq
    intro g hg hdiff
    obtain rfl := honly g hdiff
    cases hg
  rw [admissionCertificateRoot_eq_foldl, admissionCertificateRoot_eq_foldl, hwords]

end

namespace ServiceController

variable {N : Nat}

/-- What an accepted certificate carries. -/
theorem certificateRoot_of_verify {s : ServiceController N} {c : AdmissionCertificate}
    (h : s.verifyCertificate c = true) : c.certificateRoot = admissionCertificateRoot s.secret c := by
  simp only [verifyCertificate, Bool.and_eq_true, beq_iff_eq] at h
  exact h.2

/-- **No single alteration is accepted.** A certificate that differs from an accepted one in exactly one of its
    thirteen fields is rejected by the same controller. -/
theorem altered_certificate_rejected {s : ServiceController N} {c c' : AdmissionCertificate}
    (hv : s.verifyCertificate c = true) (hone : ∃! f : CertificateField, f.Differs c c') :
    s.verifyCertificate c' = false := by
  obtain ⟨f, hf, honly⟩ := hone
  rw [Bool.eq_false_iff]
  intro hv'
  have hroot := certificateRoot_of_verify hv
  have hroot' := certificateRoot_of_verify hv'
  cases hw : f.word with
  | none =>
      -- the stored root changed, the computed one did not
      obtain rfl := CertificateField.word_eq_none hw
      apply hf
      rw [hroot, hroot', admissionCertificateRoot_eq s.secret honly]
  | some w =>
      have hstored : c.certificateRoot = c'.certificateRoot := by
        by_contra hne
        obtain rfl := honly .certificateRoot hne
        cases hw
      apply admissionCertificateRoot_ne s.secret hw hf honly
      rw [← hroot, ← hroot', hstored]

/-- The first certificate of the sample controller, with the admission count altered. -/
theorem altered_count_rejected :
    sampleController.verifyCertificate sampleCertificate = true ∧
      sampleController.verifyCertificate { sampleCertificate with admittedBefore := 1 } = false := by
  have hv : sampleController.verifyCertificate sampleCertificate = true := by decide +kernel
  refine ⟨hv, altered_certificate_rejected hv ⟨.admittedBefore, ?_, ?_⟩⟩
  · show sampleCertificate.admittedBefore ≠ 1
    decide +kernel
  · intro g hg
    cases g with
    | admittedBefore => rfl
    | _ => exact absurd rfl hg

end ServiceController

end Slope.Service
