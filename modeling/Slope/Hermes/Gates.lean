import Slope.Hermes.Manifold

/-!
# `Hermes.Gates` — what every run of the phase manifold keeps

`Advance m c m'` is the gate chain itself: the nine ways a call can succeed, each with the phase it leaves,
the phase it enters and the evidence it records. `step_cases` says that a call either advances along one
gate, or fails and leaves the manifold alone, or is an `ignite` that failed *after* recording its
observations. Everything else follows from it:

* `Gated` — phase, evidence and certificate agree — holds in every reachable state;
* a failing call leaves the manifold unchanged except for exactly that kind of `ignite`.
-/

namespace Slope.Hermes.HermesManifold

/-! ## The gate chain -/

/-- The evidence after an `ignite` recorded its three observations. -/
def observed (m : HermesManifold) (wpr mailbox ready : Bool) : HermesManifold :=
  { m with evidence := { m.evidence with
      wprLocked := wpr, bootMailboxOk := mailbox, readyQueueObserved := ready } }

/-- **The gate chain.** `Advance m c m'`: the call `c` passes its gates in `m` and leaves `m'`. -/
inductive Advance (m : HermesManifold) : Call → HermesManifold → Prop where
  | probe (hp : m.phase = .offline) :
      Advance m (.observeProbe true)
        { m with evidence := { m.evidence with pciMatched := true }, phase := .probed }
  | firmware (hp : m.phase = .probed) :
      Advance m (.observeFirmware true)
        { m with evidence := { m.evidence with firmwareMeasured := true }, phase := .firmwared }
  | queues {domain : U32} (hp : m.phase = .firmwared) (hd : domain ≠ 0) :
      Advance m (.armQueues true domain)
        { m with evidence := { m.evidence with iommuIsolated := true, dmaDomain := domain }
                 phase := .queued }
  | features {features : U64} (hp : m.phase = .queued) (hf : features ≠ 0)
      (hw : Feature.wellFormed features = true) :
      Advance m (.negotiate features)
        { m with evidence := { m.evidence with negotiatedFeatures := features }, phase := .negotiated }
  | ignite {wpr mailbox ready : Bool} {cert : OnlineCertificate} (hp : m.phase = .negotiated)
      (hs : OnlineCertificate.sealFor m.generation (m.observed wpr mailbox ready).evidence = .ok cert) :
      Advance m (.ignite wpr mailbox ready)
        { m.observed wpr mailbox ready with certificate := some cert, phase := .online }
  | fatal (hp : m.phase = .online) (hc : m.certificate.isSome) :
      Advance m (.detectFault true)
        { m with fatalFaults := Word.saturatingAdd m.fatalFaults 1, phase := .recovering }
  | corrected (hp : m.phase = .online) (hc : m.certificate.isSome) :
      Advance m (.detectFault false)
        { m with correctedFaults := Word.saturatingAdd m.correctedFaults 1, phase := .recovering }
  | restore (hp : m.phase = .recovering) (hc : m.certificate.isSome) :
      Advance m .restore { m with phase := .online }
  | contain (hp : m.phase = .recovering) : Advance m .contain { m with phase := .quarantined }
  | release (hp : m.phase = .quarantined) : Advance m .release (dark (m.generation + 1))

/-- **Step inversion.** A call advances along one gate, fails and leaves the manifold alone, or is an `ignite`
    in Negotiated whose seal refused the evidence it had just recorded. -/
theorem step_cases (m : HermesManifold) (c : Call) :
    ((m.step c).1 = .ok () ∧ Advance m c (m.step c).2) ∨
      (∃ fault, m.step c = (.error fault, m)) ∨
      (∃ wpr mailbox ready fault, c = .ignite wpr mailbox ready ∧ m.phase = .negotiated ∧
        OnlineCertificate.sealFor m.generation (m.observed wpr mailbox ready).evidence = .error fault ∧
        m.step c = (.error fault, m.observed wpr mailbox ready)) := by
  cases c with
  | observeProbe pci =>
      simp only [step, observeProbe]
      split_ifs with h₁ h₂
      · exact .inr (.inl ⟨_, rfl⟩)
      · exact .inr (.inl ⟨_, rfl⟩)
      · obtain rfl : pci = true := by simpa using h₂
        exact .inl ⟨rfl, .probe (not_not.mp h₁)⟩
  | observeFirmware measured =>
      simp only [step, observeFirmware]
      split_ifs with h₁ h₂
      · exact .inr (.inl ⟨_, rfl⟩)
      · exact .inr (.inl ⟨_, rfl⟩)
      · obtain rfl : measured = true := by simpa using h₂
        exact .inl ⟨rfl, .firmware (not_not.mp h₁)⟩
  | armQueues iommu domain =>
      simp only [step, armQueues]
      split_ifs with h₁ h₂ h₃
      · exact .inr (.inl ⟨_, rfl⟩)
      · exact .inr (.inl ⟨_, rfl⟩)
      · exact .inr (.inl ⟨_, rfl⟩)
      · obtain rfl : iommu = true := by simpa using h₂
        exact .inl ⟨rfl, .queues (not_not.mp h₁) h₃⟩
  | negotiate features =>
      simp only [step, negotiate]
      split_ifs with h₁ h₂ h₃
      · exact .inr (.inl ⟨_, rfl⟩)
      · exact .inr (.inl ⟨_, rfl⟩)
      · exact .inr (.inl ⟨_, rfl⟩)
      · exact .inl ⟨rfl, .features (not_not.mp h₁) h₂ (by simpa using h₃)⟩
  | ignite wpr mailbox ready =>
      simp only [step, ignite]
      split_ifs with h₁
      · exact .inr (.inl ⟨_, rfl⟩)
      · cases hs : OnlineCertificate.sealFor m.generation (m.observed wpr mailbox ready).evidence with
        | error fault =>
            refine .inr (.inr ⟨wpr, mailbox, ready, fault, rfl, not_not.mp h₁, hs, ?_⟩)
            simp only [observed] at hs ⊢
            rw [hs]
        | ok cert =>
            have hadv := Advance.ignite (not_not.mp h₁) hs
            simp only [observed] at hs hadv
            rw [hs]
            exact .inl ⟨rfl, hadv⟩
  | detectFault fatal =>
      simp only [step, detectFault]
      split_ifs with h₁ h₂ h₃
      · exact .inr (.inl ⟨_, rfl⟩)
      · exact .inr (.inl ⟨_, rfl⟩)
      · subst h₃
        exact .inl ⟨rfl, .fatal (not_not.mp h₁) (by simpa [Option.isSome_iff_ne_none] using h₂)⟩
      · obtain rfl : fatal = false := by simpa using h₃
        exact .inl ⟨rfl, .corrected (not_not.mp h₁) (by simpa [Option.isSome_iff_ne_none] using h₂)⟩
  | restore =>
      simp only [step, restore]
      split_ifs with h₁ h₂
      · exact .inr (.inl ⟨_, rfl⟩)
      · exact .inr (.inl ⟨_, rfl⟩)
      · exact .inl ⟨rfl, .restore (not_not.mp h₁) (by simpa [Option.isSome_iff_ne_none] using h₂)⟩
  | contain =>
      simp only [step, contain]
      split_ifs with h₁
      · exact .inr (.inl ⟨_, rfl⟩)
      · exact .inl ⟨rfl, .contain (not_not.mp h₁)⟩
  | release =>
      simp only [step, release]
      split_ifs with h₁
      · exact .inr (.inl ⟨_, rfl⟩)
      · exact .inl ⟨rfl, .release (not_not.mp h₁)⟩

/-! ## The seal -/

/-- Evidence is ready for Online exactly when all nine of its gates hold. -/
theorem onlineReady_ok {e : HermesEvidence} :
    e.onlineReady = .ok () ↔
      e.pciMatched = true ∧ e.firmwareMeasured = true ∧ (e.iommuIsolated = true ∧ e.dmaDomain ≠ 0) ∧
        (e.wprLocked = true ∧ e.bootMailboxOk = true ∧ e.readyQueueObserved = true) ∧
        (e.negotiatedFeatures ≠ 0 ∧ Feature.wellFormed e.negotiatedFeatures = true) := by
  simp only [HermesEvidence.onlineReady, guard_ok, Bool.not_eq_true', Bool.not_eq_false, ne_eq, and_true,
    and_assoc]

/-- The seal refuses only evidence that is not ready. -/
theorem sealFor_error_iff {g : U32} {e : HermesEvidence} :
    (∃ fault, OnlineCertificate.sealFor g e = .error fault) ↔ e.onlineReady ≠ .ok () := by
  unfold OnlineCertificate.sealFor
  cases h : e.onlineReady with
  | error fault => simp
  | ok u => simp

theorem onlineReady_of_sealFor {g : U32} {e : HermesEvidence} {c : OnlineCertificate}
    (h : OnlineCertificate.sealFor g e = .ok c) : e.onlineReady = .ok () := by
  by_contra hn
  obtain ⟨fault, hf⟩ := sealFor_error_iff.mpr hn
  rw [hf] at h
  cases h

/-! ## The invariant -/

/-- Each gate's evidence is present exactly from the phase that gate opens. -/
structure Earned (p : HermesPhase) (e : HermesEvidence) : Prop where
  pci : e.pciMatched = true ↔ .probed ≤ p
  firmware : e.firmwareMeasured = true ↔ .firmwared ≤ p
  domain : e.iommuIsolated = true ∧ e.dmaDomain ≠ 0 ↔ .queued ≤ p
  features : e.negotiatedFeatures ≠ 0 ∧ Feature.wellFormed e.negotiatedFeatures = true ↔ .negotiated ≤ p

/-- **Phase, evidence and certificate agree.** The evidence is the one the phase has earned, and the
    certificate is the seal of that evidence, present exactly in the three phases past ignition. -/
structure Gated (m : HermesManifold) : Prop where
  certified : m.certificate.isSome ↔ m.phase = .online ∨ m.phase = .recovering ∨ m.phase = .quarantined
  sealed : ∀ c, m.certificate = some c →
    m.evidence.onlineReady = .ok () ∧ OnlineCertificate.sealFor m.generation m.evidence = .ok c
  earned : Earned m.phase m.evidence

section Earned

variable {e : HermesEvidence} {p q : HermesPhase}

theorem earned_empty : Earned .offline .empty := ⟨by decide, by decide, by decide, by decide⟩

/-- Opening a gate leaves the other gates on the side they were on. -/
theorem Earned.probe (he : Earned .offline e) : Earned .probed { e with pciMatched := true } :=
  ⟨iff_of_true rfl (by decide), he.firmware.trans (by decide), he.domain.trans (by decide),
    he.features.trans (by decide)⟩

theorem Earned.measure (he : Earned .probed e) : Earned .firmwared { e with firmwareMeasured := true } :=
  ⟨he.pci.trans (by decide), iff_of_true rfl (by decide), he.domain.trans (by decide),
    he.features.trans (by decide)⟩

theorem Earned.arm (he : Earned .firmwared e) {domain : U32} (hd : domain ≠ 0) :
    Earned .queued { e with iommuIsolated := true, dmaDomain := domain } :=
  ⟨he.pci.trans (by decide), he.firmware.trans (by decide), iff_of_true ⟨rfl, hd⟩ (by decide),
    he.features.trans (by decide)⟩

theorem Earned.negotiate (he : Earned .queued e) {features : U64} (hf : features ≠ 0)
    (hw : Feature.wellFormed features = true) :
    Earned .negotiated { e with negotiatedFeatures := features } :=
  ⟨he.pci.trans (by decide), he.firmware.trans (by decide), he.domain.trans (by decide),
    iff_of_true ⟨hf, hw⟩ (by decide)⟩

/-- From Negotiated on every gate is open, so the phase may move freely. -/
theorem Earned.move (he : Earned p e) (hp : .negotiated ≤ p) (hq : .negotiated ≤ q) : Earned q e := by
  have hopen : ∀ {r s : HermesPhase}, r ≤ .negotiated → .negotiated ≤ s → r ≤ s :=
    fun hr hs => BitVec.le_trans hr hs
  refine ⟨he.pci.trans ?_, he.firmware.trans ?_, he.domain.trans ?_, he.features.trans ?_⟩
  · exact iff_of_true (hopen (by decide) hp) (hopen (by decide) hq)
  · exact iff_of_true (hopen (by decide) hp) (hopen (by decide) hq)
  · exact iff_of_true (hopen (by decide) hp) (hopen (by decide) hq)
  · exact iff_of_true hp hq

/-- The boot observations are no gate of their own. -/
theorem Earned.observed (he : Earned p e) (wpr mailbox ready : Bool) :
    Earned p { e with wprLocked := wpr, bootMailboxOk := mailbox, readyQueueObserved := ready } :=
  ⟨he.pci, he.firmware, he.domain, he.features⟩

end Earned

theorem gated_dark (g : U32) : Gated (dark g) where
  certified := by simp [dark]
  sealed := by intro c hc; cases hc
  earned := earned_empty

/-- Before ignition an invariant state holds no certificate. -/
theorem Gated.uncertified {m : HermesManifold} (hg : Gated m) (hp : m.phase ≤ .negotiated) :
    m.certificate = none := by
  have hn : ¬ m.certificate.isSome := by
    rw [hg.certified]
    rintro (h | h | h) <;> exact absurd hp (by rw [h]; decide)
  simpa using hn

/-- **Before ignition**, a state without certificate keeps the invariant by its evidence alone. -/
theorem gated_of_earned {m : HermesManifold} {p : HermesPhase} (hc : m.certificate = none)
    (hm : m.phase = p) (hp : p ≤ .negotiated) (he : Earned p m.evidence) : Gated m where
  certified := by
    refine iff_of_false (by simp [hc]) ?_
    rw [hm]
    rintro (rfl | rfl | rfl) <;> exact absurd hp (by decide)
  sealed := by intro c hs; cases hc.symm.trans hs
  earned := hm ▸ he

/-- **Past ignition** a call that moves only the phase keeps the invariant. -/
theorem Gated.move {m : HermesManifold} (hg : Gated m) {p : HermesPhase} (hm : .online ≤ m.phase)
    (hp : .online ≤ p) (cf ff : U32) :
    Gated { m with phase := p, correctedFaults := cf, fatalFaults := ff } where
  certified := by
    have hpast : ∀ q : HermesPhase, .online ≤ q →
        q = .online ∨ q = .recovering ∨ q = .quarantined := by
      intro q hq
      cases q <;> first | exact absurd hq (by decide) | simp
    exact iff_of_true (hg.certified.mpr (hpast m.phase hm)) (hpast p hp)
  sealed := hg.sealed
  earned := by
    apply hg.earned.move
    · exact BitVec.le_trans (by decide) hm
    · exact BitVec.le_trans (by decide) hp

/-- **Every gate keeps the invariant.** Up to Negotiated a gate adds its own evidence; ignition adds the
    certificate; past ignition only the phase moves, until a release starts over. -/
theorem gated_advance {m m' : HermesManifold} {c : Call} (hg : Gated m) (ha : Advance m c m') : Gated m' := by
  have he := hg.earned
  cases ha with
  | probe hp =>
      rw [hp] at he
      exact gated_of_earned (p := .probed) (hg.uncertified (by rw [hp]; decide)) rfl (by decide) he.probe
  | firmware hp =>
      rw [hp] at he
      exact gated_of_earned (p := .firmwared) (hg.uncertified (by rw [hp]; decide)) rfl (by decide) he.measure
  | queues hp hd =>
      rw [hp] at he
      exact gated_of_earned (p := .queued) (hg.uncertified (by rw [hp]; decide)) rfl (by decide) (he.arm hd)
  | features hp hf hw =>
      rw [hp] at he
      exact gated_of_earned (p := .negotiated) (hg.uncertified (by rw [hp]; decide)) rfl (by decide)
        (he.negotiate hf hw)
  | @ignite wpr mailbox ready cert hp hs =>
      rw [hp] at he
      have hon : Earned .online (m.observed wpr mailbox ready).evidence :=
        (he.observed wpr mailbox ready).move (by decide) (by decide)
      refine ⟨by simp, ?_, hon⟩
      intro c hc
      cases hc
      exact ⟨onlineReady_of_sealFor hs, hs⟩
  | fatal hp hc => exact hg.move (by rw [hp]; decide) (by decide) _ _
  | corrected hp hc => exact hg.move (by rw [hp]; decide) (by decide) _ _
  | restore hp hc => exact hg.move (by rw [hp]; decide) (by decide) _ _
  | contain hp => exact hg.move (by rw [hp]; decide) (by decide) _ _
  | release hp => exact gated_dark _

/-- **Invariant step.** A refused ignition records its observations, which no gate before Online reads. -/
theorem gated_step {m : HermesManifold} (hg : Gated m) (c : Call) : Gated (m.step c).2 := by
  rcases step_cases m c with ⟨-, ha⟩ | ⟨fault, he⟩ | ⟨wpr, mailbox, ready, fault, -, hp, -, he⟩
  · exact gated_advance hg ha
  · rw [he]; exact hg
  · rw [he]
    have hearned := hg.earned.observed wpr mailbox ready
    rw [hp] at hearned
    exact gated_of_earned (hg.uncertified (by rw [hp]; decide)) hp (by decide) hearned

theorem gated_run {g : U32} {h : List (Event HermesManifold Call (Except ManifoldFault Unit))}
    {m : HermesManifold} (hr : ManifoldRun g h m) : Gated m :=
  hr.state_invariant Gated (gated_dark g) (fun _ c hg => gated_step hg c)

/-! ## Entering Online, and the published flags -/

/-- Online is entered only by a successful `ignite` from Negotiated or `restore` from Recovering. -/
theorem online_entered {m : HermesManifold} {c : Call} (hn : m.phase ≠ .online)
    (ho : (m.step c).2.phase = .online) :
    (m.step c).1 = .ok () ∧
      ((∃ wpr mailbox ready, c = .ignite wpr mailbox ready) ∧ m.phase = .negotiated ∨
        c = .restore ∧ m.phase = .recovering) := by
  rcases step_cases m c with ⟨hok, ha⟩ | ⟨fault, he⟩ | ⟨wpr, mailbox, ready, fault, -, -, -, he⟩
  · refine ⟨hok, ?_⟩
    generalize (m.step c).2 = m' at ha ho
    cases ha with
    | ignite hp hs => exact .inl ⟨⟨_, _, _, rfl⟩, hp⟩
    | restore hp hc => exact .inr ⟨rfl, hp⟩
    | _ => cases ho
  · rw [he] at ho; exact absurd ho hn
  · rw [he] at ho; exact absurd ho hn

/-- In a gated state the online flag is up exactly in Online, alone. -/
theorem Gated.snapshotFlags {m : HermesManifold} (hg : Gated m) :
    (m.snapshotFlags &&& Crest.snapshotFlagHermesOnline ≠ 0 ↔ m.phase = .online) ∧
      (m.snapshotFlags &&& Crest.snapshotFlagHermesOnline ≠ 0 →
        m.snapshotFlags &&& (Crest.snapshotFlagRecoveryPending ||| Crest.snapshotFlagQuarantineActive)
          = 0) := by
  have hcert := hg.certified
  unfold HermesManifold.snapshotFlags isOnline
  cases hp : m.phase with
  | online =>
      have hsome : m.certificate.isSome = true := hcert.mpr (.inl hp)
      rw [hsome]
      decide
  | _ =>
      simp only [HermesPhase.isLive, Bool.false_and]
      decide

/-- **The gate discipline.** In every run of the nine transitions from `dark g`: the certificate is present
    exactly in Online, Recovering and Quarantined and is then the seal of evidence that is ready; each gate's
    evidence is present exactly from its phase on; Online was entered only by `ignite` from Negotiated or
    `restore` from Recovering; and the online flag is published exactly in Online, never together with the
    recovery or quarantine flag. -/
theorem manifold_gated {g : U32} {h : List (Event HermesManifold Call (Except ManifoldFault Unit))}
    {m : HermesManifold} (hr : ManifoldRun g h m) :
    (m.certificate.isSome ↔ m.phase = .online ∨ m.phase = .recovering ∨ m.phase = .quarantined) ∧
      (∀ c, m.certificate = some c →
        m.evidence.onlineReady = .ok () ∧ OnlineCertificate.sealFor m.generation m.evidence = .ok c) ∧
      (m.evidence.pciMatched = true ↔ .probed ≤ m.phase) ∧
      (m.evidence.firmwareMeasured = true ↔ .firmwared ≤ m.phase) ∧
      (m.evidence.iommuIsolated = true ∧ m.evidence.dmaDomain ≠ 0 ↔ .queued ≤ m.phase) ∧
      (m.evidence.negotiatedFeatures ≠ 0 ∧ Feature.wellFormed m.evidence.negotiatedFeatures = true ↔
        .negotiated ≤ m.phase) ∧
      (∀ e ∈ h, e.pre.phase ≠ .online → e.post.phase = .online →
        e.result = .ok () ∧
          ((∃ wpr mailbox ready, e.call = .ignite wpr mailbox ready) ∧ e.pre.phase = .negotiated ∨
            e.call = .restore ∧ e.pre.phase = .recovering)) ∧
      (m.snapshotFlags &&& Crest.snapshotFlagHermesOnline ≠ 0 ↔ m.phase = .online) ∧
      (m.snapshotFlags &&& Crest.snapshotFlagHermesOnline ≠ 0 →
        m.snapshotFlags &&& (Crest.snapshotFlagRecoveryPending ||| Crest.snapshotFlagQuarantineActive)
          = 0) := by
  have hg := gated_run hr
  refine ⟨hg.certified, hg.sealed, hg.earned.pci, hg.earned.firmware, hg.earned.domain,
    hg.earned.features, ?_, hg.snapshotFlags⟩
  intro e he hn ho
  rw [hr.event_of he] at hn ho ⊢
  exact online_entered hn ho

/-- The calls that bring `dark g` to Negotiated, with one refused ignition. -/
def bootCalls : List Call :=
  [.observeProbe true, .observeFirmware true, .armQueues true 9,
    .negotiate (Feature.bootRpc ||| Feature.commandRing ||| Feature.eventRing), .ignite true true false]

/-- Online is really reached: the boot calls, a second ignition, a fault and a restore. -/
theorem manifold_gated_restored :
    (finalState step (dark 3) (bootCalls ++ [.ignite true true true, .detectFault false, .restore])).phase
        = .online ∧
      (finalState step (dark 3) (bootCalls ++ [.ignite true true true, .detectFault false, .restore])
        ).certificate.isSome := by
  have hr : ManifoldRun 3 _ _ :=
    Run.replay _ _ (bootCalls ++ [.ignite true true true, .detectFault false, .restore])
  have hon : (finalState step (dark 3)
      (bootCalls ++ [.ignite true true true, .detectFault false, .restore])).phase = .online := by
    decide +kernel
  exact ⟨hon, (manifold_gated hr).1.mpr (.inl hon)⟩

/-! ## Failing calls -/

/-- The call is an ignition in Negotiated that lacks an observation, and its observations are not the ones
    already on record. -/
def SpoilsEvidence (m : HermesManifold) (c : Call) : Prop :=
  ∃ wpr mailbox ready, c = .ignite wpr mailbox ready ∧ m.phase = .negotiated ∧
    ¬ (wpr = true ∧ mailbox = true ∧ ready = true) ∧
    ¬ (m.evidence.wprLocked = wpr ∧ m.evidence.bootMailboxOk = mailbox ∧
      m.evidence.readyQueueObserved = ready)

theorem observed_eq_iff {m : HermesManifold} {wpr mailbox ready : Bool} :
    m.observed wpr mailbox ready = m ↔
      m.evidence.wprLocked = wpr ∧ m.evidence.bootMailboxOk = mailbox ∧
        m.evidence.readyQueueObserved = ready := by
  obtain ⟨g, p, ⟨pci, fw, io, dom, w, b, r, ft⟩, c, cf, ff⟩ := m
  simp [observed, eq_comm]

/-- In Negotiated all that can be missing for Online are the three boot observations. -/
theorem Gated.ready_iff {m : HermesManifold} (hg : Gated m) (hp : m.phase = .negotiated)
    (wpr mailbox ready : Bool) :
    (m.observed wpr mailbox ready).evidence.onlineReady = .ok () ↔
      wpr = true ∧ mailbox = true ∧ ready = true := by
  have he := hg.earned
  rw [hp] at he
  rw [onlineReady_ok]
  constructor
  · rintro ⟨-, -, -, hboot, -⟩
    exact hboot
  · intro hboot
    exact ⟨he.pci.mpr (by decide), he.firmware.mpr (by decide), he.domain.mpr (by decide), hboot,
      he.features.mpr (by decide)⟩

/-- **Failing calls.** In a gated state a call leaves the manifold unchanged when it fails exactly unless it
    is an ignition that spoils the recorded evidence. -/
theorem Gated.failsUnchanged_iff {m : HermesManifold} (hg : Gated m) (c : Call) :
    ((m.step c).1 ≠ .ok () → (m.step c).2 = m) ↔ ¬ SpoilsEvidence m c := by
  constructor
  · rintro hun ⟨wpr, mailbox, ready, rfl, hp, hmiss, hdiff⟩
    -- the seal refuses, so the call fails with the observations already recorded
    have hnot := mt (hg.ready_iff hp wpr mailbox ready).mp hmiss
    obtain ⟨fault, hs⟩ := sealFor_error_iff (g := m.generation).mpr hnot
    have hstep : m.step (.ignite wpr mailbox ready) = (.error fault, m.observed wpr mailbox ready) := by
      simp only [observed] at hs
      simp [step, ignite, hp, hs, observed]
    rw [hstep] at hun
    exact hdiff (observed_eq_iff.mp (hun (by simp)))
  · intro hns hfail
    rcases step_cases m c with ⟨hok, -⟩ | ⟨fault, he⟩ | ⟨wpr, mailbox, ready, fault, rfl, hp, hs, he⟩
    · exact absurd hok hfail
    · rw [he]
    · rw [he]
      refine observed_eq_iff.mpr (not_not.mp fun hdiff => hns ?_)
      refine ⟨wpr, mailbox, ready, rfl, hp, fun hall => ?_, hdiff⟩
      exact sealFor_error_iff.mp ⟨fault, hs⟩ ((hg.ready_iff hp wpr mailbox ready).mpr hall)

/-- **Failing calls, over whole runs.** In every reachable state a failing call leaves the manifold exactly as
    it was if and only if the call is not an ignition that spoils the recorded evidence; and so a run has only
    such clean failures exactly when none of its calls spoils the evidence it found. -/
theorem failure_clean_iff {g : U32} {h : List (Event HermesManifold Call (Except ManifoldFault Unit))}
    {m : HermesManifold} (hr : ManifoldRun g h m) :
    (∀ c, ((m.step c).1 ≠ .ok () → (m.step c).2 = m) ↔ ¬ SpoilsEvidence m c) ∧
      ((∀ e ∈ h, e.result ≠ .ok () → e.post = e.pre) ↔ ∀ e ∈ h, ¬ SpoilsEvidence e.pre e.call) := by
  refine ⟨(gated_run hr).failsUnchanged_iff, forall₂_congr fun e he => ?_⟩
  obtain ⟨h₁, h₂, rfl⟩ := List.append_of_mem he
  have hg := gated_run (hr.cut rfl).1
  rw [hr.event_of he]
  exact hg.failsUnchanged_iff e.call

/-- A refused ignition that repeats the observations on record leaves the manifold as it was. -/
theorem failure_clean_repeated :
    ((finalState step (dark 3) bootCalls).step (.ignite true true false)).2
      = finalState step (dark 3) bootCalls := by
  have hr : ManifoldRun 3 _ _ := Run.replay _ _ bootCalls
  refine ((failure_clean_iff hr).1 _).mpr ?_ (by decide +kernel)
  rintro ⟨wpr, mailbox, ready, hc, -, -, hdiff⟩
  obtain ⟨rfl, rfl, rfl⟩ : true = wpr ∧ true = mailbox ∧ false = ready := by simpa using hc
  exact hdiff (by decide +kernel)

/-- A failing call that changes the manifold: the boot mailbox is up, the write-protected region is not. The
    call reports `MissingWpr` and leaves `boot_mailbox_ok` and `ready_queue_observed` recorded. -/
theorem failure_unclean :
    ¬ ∀ (g : U32) (h : List (Event HermesManifold Call (Except ManifoldFault Unit))) (m : HermesManifold),
      ManifoldRun g h m → ∀ c, (m.step c).1 ≠ .ok () → (m.step c).2 = m := by
  intro hall
  have hr : ManifoldRun 3 _ _ := Run.replay _ _ (bootCalls.take 4)
  have hsame := hall 3 _ _ hr (.ignite false true true) (by decide +kernel)
  exact absurd hsame (by decide +kernel)

end Slope.Hermes.HermesManifold
