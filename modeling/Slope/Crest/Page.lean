import Slope.Crest.Mailbox

/-!
# `Crest.Page` — the page as a store of mailboxes and epochs

The operations of `QuantumCrestPage`, one after the other. The two epochs are words of their own, apart from
the mailboxes: `epochs` is meant to name the last snapshot published and the last command submitted. The store
of the epoch comes before the publication, though, which may still be refused; `Strands` says when that leaves
an epoch without its record.
-/

namespace Slope.Crest

structure QuantumCrestPage where
  snapshot : SnapshotCell
  command : CommandMailbox
  reply : ReplyMailbox
  kernelEpoch : U64
  userEpoch : U64
deriving DecidableEq

namespace QuantumCrestPage

def new : QuantumCrestPage where
  snapshot := SnapshotCell.new
  command := CommandMailbox.new
  reply := ReplyMailbox.new
  kernelEpoch := 0
  userEpoch := 0

variable (page : QuantumCrestPage)

def kernelPublishSnapshot (snapshot : QuantumSystemSnapshot) :
    Except QuantumPortalError Unit × QuantumCrestPage :=
  if snapshot.epoch = 0 ∨ snapshot.sequence = 0 then (.error .invalid, page)
  else
    let page := { page with kernelEpoch := snapshot.epoch }
    match SnapshotCell.publish page.snapshot snapshot with
    | (result, cell) => (result, { page with snapshot := cell })

def userReadSnapshot : Except QuantumPortalError (Option QuantumSystemSnapshot) × QuantumCrestPage :=
  match SnapshotCell.take page.snapshot with
  | (result, cell) => (result, { page with snapshot := cell })

def userSubmitCommand (command : QuantumDesktopCommand) :
    Except QuantumPortalError Unit × QuantumCrestPage :=
  if command.epoch = 0 ∨ command.sequence = 0 then (.error .invalid, page)
  else
    let page := { page with userEpoch := command.epoch }
    match CommandMailbox.submit page.command command with
    | (result, cell) => (result, { page with command := cell })

def kernelTakeCommand : Except QuantumPortalError (Option QuantumDesktopCommand) × QuantumCrestPage :=
  match CommandMailbox.take page.command with
  | (result, cell) => (result, { page with command := cell })

def kernelPublishReply (reply : QuantumDesktopReply) : Except QuantumPortalError Unit × QuantumCrestPage :=
  if reply.commandSequence = 0 then (.error .invalid, page)
  else
    match ReplyMailbox.publish page.reply reply with
    | (result, cell) => (result, { page with reply := cell })

def userTakeReply : Except QuantumPortalError (Option QuantumDesktopReply) × QuantumCrestPage :=
  match ReplyMailbox.take page.reply with
  | (result, cell) => (result, { page with reply := cell })

def epochs : U64 × U64 := (page.kernelEpoch, page.userEpoch)

/-! ## Calls -/

inductive Call where
  | kernelPublishSnapshot (snapshot : QuantumSystemSnapshot)
  | userReadSnapshot
  | userSubmitCommand (command : QuantumDesktopCommand)
  | kernelTakeCommand
  | kernelPublishReply (reply : QuantumDesktopReply)
  | userTakeReply

inductive Answer where
  | published (result : Except QuantumPortalError Unit)
  | snapshot (result : Except QuantumPortalError (Option QuantumSystemSnapshot))
  | command (result : Except QuantumPortalError (Option QuantumDesktopCommand))
  | reply (result : Except QuantumPortalError (Option QuantumDesktopReply))

def step : Call → Answer × QuantumCrestPage
  | .kernelPublishSnapshot x => (page.kernelPublishSnapshot x).map .published id
  | .userReadSnapshot => page.userReadSnapshot.map .snapshot id
  | .userSubmitCommand x => (page.userSubmitCommand x).map .published id
  | .kernelTakeCommand => page.kernelTakeCommand.map .command id
  | .kernelPublishReply x => (page.kernelPublishReply x).map .published id
  | .userTakeReply => page.userTakeReply.map .reply id

/-! ## Failing publications -/

end QuantumCrestPage

/-- **A checked publication** is refused as invalid, refused as busy, or successful; `put` is what the caller
    does with the mailbox once the check has passed. -/
theorem Mailbox.publish_checked {V P : Type} {invalid : Prop} [Decidable invalid] (m : Mailbox V) (v : V)
    (page : P) (put : Mailbox V → P) {out : Except QuantumPortalError Unit × P}
    (hout : out = if invalid then (.error .invalid, page) else ((m.publish v).1, put (m.publish v).2)) :
    (invalid ∧ out = (.error .invalid, page)) ∨
    (¬ invalid ∧ m.state ≠ .free ∧ out = (.error .busy, put m)) ∨
    (¬ invalid ∧ m.state = .free ∧ out = (.ok (), put ⟨.ready, v⟩)) := by
  by_cases hv : invalid
  · rw [if_pos hv] at hout
    exact .inl ⟨hv, hout⟩
  · rw [if_neg hv] at hout
    by_cases hfree : m.state = .free
    · rw [Mailbox.publish_free hfree] at hout
      exact .inr (.inr ⟨hv, hfree, hout⟩)
    · rw [Mailbox.publish_busy hfree] at hout
      exact .inr (.inl ⟨hv, hfree, hout⟩)

namespace QuantumCrestPage

/-- A publication of any kind that was refused. -/
def Answer.refused : Answer → Prop
  | .published (.error _) => True
  | _ => False

/-- The call stores an epoch and then finds the mailbox taken: the record is valid, its mailbox is not free,
    and its epoch is not the one already stored. -/
def Strands (page : QuantumCrestPage) : Call → Prop
  | .kernelPublishSnapshot x =>
    x.epoch ≠ 0 ∧ x.sequence ≠ 0 ∧ page.snapshot.state ≠ .free ∧ x.epoch ≠ page.kernelEpoch
  | .userSubmitCommand x =>
    x.epoch ≠ 0 ∧ x.sequence ≠ 0 ∧ page.command.state ≠ .free ∧ x.epoch ≠ page.userEpoch
  | _ => False

instance (page : QuantumCrestPage) : (c : Call) → Decidable (page.Strands c)
  | .kernelPublishSnapshot _ => inferInstanceAs (Decidable (_ ∧ _ ∧ _ ∧ _))
  | .userSubmitCommand _ => inferInstanceAs (Decidable (_ ∧ _ ∧ _ ∧ _))
  | .userReadSnapshot => inferInstanceAs (Decidable False)
  | .kernelTakeCommand => inferInstanceAs (Decidable False)
  | .kernelPublishReply _ => inferInstanceAs (Decidable False)
  | .userTakeReply => inferInstanceAs (Decidable False)

/-- A publication is refused as invalid, is refused as busy with its epoch stored, or succeeds. -/
theorem publishSnapshot_cases (page : QuantumCrestPage) (x : QuantumSystemSnapshot) :
    ((x.epoch = 0 ∨ x.sequence = 0) ∧ page.kernelPublishSnapshot x = (.error .invalid, page)) ∨
    (¬ (x.epoch = 0 ∨ x.sequence = 0) ∧ page.snapshot.state ≠ .free ∧
      page.kernelPublishSnapshot x = (.error .busy, { page with kernelEpoch := x.epoch })) ∨
    (¬ (x.epoch = 0 ∨ x.sequence = 0) ∧ page.snapshot.state = .free ∧
      page.kernelPublishSnapshot x = (.ok (), { page with snapshot := ⟨.ready, x⟩, kernelEpoch := x.epoch })) :=
  Mailbox.publish_checked page.snapshot x page
    (fun snapshot => { page with snapshot, kernelEpoch := x.epoch }) rfl

theorem submitCommand_cases (page : QuantumCrestPage) (x : QuantumDesktopCommand) :
    ((x.epoch = 0 ∨ x.sequence = 0) ∧ page.userSubmitCommand x = (.error .invalid, page)) ∨
    (¬ (x.epoch = 0 ∨ x.sequence = 0) ∧ page.command.state ≠ .free ∧
      page.userSubmitCommand x = (.error .busy, { page with userEpoch := x.epoch })) ∨
    (¬ (x.epoch = 0 ∨ x.sequence = 0) ∧ page.command.state = .free ∧
      page.userSubmitCommand x = (.ok (), { page with command := ⟨.ready, x⟩, userEpoch := x.epoch })) :=
  Mailbox.publish_checked page.command x page
    (fun command => { page with command, userEpoch := x.epoch }) rfl

/-- The reply path stores nothing before it publishes, so a refused reply leaves no trace. -/
theorem publishReply_cases (page : QuantumCrestPage) (x : QuantumDesktopReply) :
    (∃ err, page.kernelPublishReply x = (.error err, page)) ∨
    page.kernelPublishReply x = (.ok (), { page with reply := ⟨.ready, x⟩ }) := by
  have hout : page.kernelPublishReply x = _ := rfl
  rcases Mailbox.publish_checked page.reply x page (fun reply => { page with reply }) hout with
    ⟨-, he⟩ | ⟨-, -, he⟩ | ⟨-, -, he⟩
  · exact .inl ⟨_, he⟩
  · exact .inl ⟨_, he⟩
  · exact .inr he

/-- **A refused publication leaves the page alone** exactly when the call does not strand an epoch. -/
theorem refused_clean_iff (page : QuantumCrestPage) (c : Call) :
    ((page.step c).1.refused → (page.step c).2 = page) ↔ ¬ page.Strands c := by
  cases c with
  | kernelPublishSnapshot x =>
      simp only [step, Strands]
      rcases publishSnapshot_cases page x with ⟨hv, he⟩ | ⟨hv, hbusy, he⟩ | ⟨hv, hfree, he⟩
      · rw [he]
        exact iff_of_true (fun _ => rfl) fun h => hv.elim h.1 h.2.1
      · rw [he]
        constructor
        · rintro hclean ⟨-, -, -, hne⟩
          exact hne (congrArg kernelEpoch (hclean trivial))
        · intro hn _
          obtain ⟨he0, hs0⟩ := not_or.mp hv
          have heq : x.epoch = page.kernelEpoch := not_not.mp fun hne => hn ⟨he0, hs0, hbusy, hne⟩
          simp [heq]
      · rw [he]
        exact iff_of_true (fun h => h.elim) fun h => h.2.2.1 hfree
  | userSubmitCommand x =>
      simp only [step, Strands]
      rcases submitCommand_cases page x with ⟨hv, he⟩ | ⟨hv, hbusy, he⟩ | ⟨hv, hfree, he⟩
      · rw [he]
        exact iff_of_true (fun _ => rfl) fun h => hv.elim h.1 h.2.1
      · rw [he]
        constructor
        · rintro hclean ⟨-, -, -, hne⟩
          exact hne (congrArg userEpoch (hclean trivial))
        · intro hn _
          obtain ⟨he0, hs0⟩ := not_or.mp hv
          have heq : x.epoch = page.userEpoch := not_not.mp fun hne => hn ⟨he0, hs0, hbusy, hne⟩
          simp [heq]
      · rw [he]
        exact iff_of_true (fun h => h.elim) fun h => h.2.2.1 hfree
  | kernelPublishReply x =>
      simp only [step, Strands]
      rcases publishReply_cases page x with ⟨err, he⟩ | he
      · rw [he]
        exact iff_of_true (fun _ => rfl) id
      · rw [he]
        exact iff_of_true (fun h => h.elim) id
  | userReadSnapshot => exact iff_of_true (fun h => h.elim) id
  | kernelTakeCommand => exact iff_of_true (fun h => h.elim) id
  | userTakeReply => exact iff_of_true (fun h => h.elim) id

/-! ## Epochs along runs -/

abbrev PageEvent := Event QuantumCrestPage Call Answer

/-- The epoch of a snapshot that the event published. -/
def publishedEpoch (e : PageEvent) : Option U64 :=
  match e.call, e.result with
  | .kernelPublishSnapshot x, .published (.ok _) => some x.epoch
  | _, _ => none

/-- The epoch of a command that the event submitted. -/
def submittedEpoch (e : PageEvent) : Option U64 :=
  match e.call, e.result with
  | .userSubmitCommand x, .published (.ok _) => some x.epoch
  | _, _ => none

/-- The last epoch a reading of the history finds, or `0`. -/
def lastEpoch (f : PageEvent → Option U64) (h : List PageEvent) : U64 := (h.filterMap f).getLast?.getD 0

theorem lastEpoch_snoc (f : PageEvent → Option U64) (h : List PageEvent) (e : PageEvent) :
    lastEpoch f (h ++ [e]) = (f e).getD (lastEpoch f h) := by
  unfold lastEpoch
  rw [filterMap_snoc]
  cases f e with
  | none => simp
  | some epoch => simp

/-- Each epoch moves to the one of a publication that succeeded, and otherwise stays, unless a call strands
    one. -/
theorem epochs_step {page : QuantumCrestPage} {c : Call} (hn : ¬ page.Strands c) :
    (page.step c).2.kernelEpoch = (publishedEpoch (Event.of step page c)).getD page.kernelEpoch ∧
      (page.step c).2.userEpoch = (submittedEpoch (Event.of step page c)).getD page.userEpoch := by
  have hclean := (refused_clean_iff page c).mpr hn
  unfold publishedEpoch submittedEpoch Event.of
  cases c with
  | kernelPublishSnapshot x =>
      simp only [step] at hclean ⊢
      rcases publishSnapshot_cases page x with ⟨-, he⟩ | ⟨-, -, he⟩ | ⟨-, -, he⟩
      · rw [he]
        exact ⟨rfl, rfl⟩
      · rw [he] at hclean ⊢
        exact ⟨congrArg kernelEpoch (hclean trivial), congrArg userEpoch (hclean trivial)⟩
      · rw [he]
        exact ⟨rfl, rfl⟩
  | userSubmitCommand x =>
      simp only [step] at hclean ⊢
      rcases submitCommand_cases page x with ⟨-, he⟩ | ⟨-, -, he⟩ | ⟨-, -, he⟩
      · rw [he]
        exact ⟨rfl, rfl⟩
      · rw [he] at hclean ⊢
        exact ⟨congrArg kernelEpoch (hclean trivial), congrArg userEpoch (hclean trivial)⟩
      · rw [he]
        exact ⟨rfl, rfl⟩
  | kernelPublishReply x =>
      simp only [step]
      rcases publishReply_cases page x with ⟨err, he⟩ | he
      · rw [he]
        exact ⟨rfl, rfl⟩
      · rw [he]
        exact ⟨rfl, rfl⟩
  | userReadSnapshot => exact ⟨rfl, rfl⟩
  | kernelTakeCommand => exact ⟨rfl, rfl⟩
  | userTakeReply => exact ⟨rfl, rfl⟩

/-- **Refused publications and epochs.** A run from the new page leaves the page alone at every refused
    publication exactly when none of its calls strands an epoch; and then `epochs` names the last snapshot
    published and the last command submitted. -/
theorem refusals_clean_iff {h : List PageEvent} {page : QuantumCrestPage}
    (hr : Run step (fun _ _ => True) new h page) :
    ((∀ e ∈ h, e.result.refused → e.post = e.pre) ↔ ∀ e ∈ h, ¬ e.pre.Strands e.call) ∧
      ((∀ e ∈ h, ¬ e.pre.Strands e.call) →
        page.epochs = (lastEpoch publishedEpoch h, lastEpoch submittedEpoch h)) := by
  constructor
  · refine forall₂_congr fun e he => ?_
    rw [hr.event_of he]
    exact refused_clean_iff e.pre e.call
  · refine hr.invariant (fun h page => (∀ e ∈ h, ¬ e.pre.Strands e.call) →
      page.epochs = (lastEpoch publishedEpoch h, lastEpoch submittedEpoch h)) (fun _ => rfl) ?_
    intro h page c _ _ ih hall
    have hold := ih fun e he => hall e (List.mem_append_left _ he)
    have hlast : ¬ page.Strands c := hall (Event.of step page c) (by simp)
    obtain ⟨hk, hu⟩ := epochs_step hlast
    obtain ⟨hkold, huold⟩ := Prod.mk.inj hold
    rw [lastEpoch_snoc, lastEpoch_snoc, ← hkold, ← huold]
    exact Prod.ext hk hu

/-- Two publications with the snapshot read in between: the second is clean. -/
def readBetween : List Call :=
  [.kernelPublishSnapshot (.stamped 1 7), .userReadSnapshot, .kernelPublishSnapshot (.stamped 2 8),
    .kernelPublishSnapshot (.stamped 0 9)]

theorem refusals_clean_sample :
    (finalState step new readBetween).epochs = (8, 0) := by
  have hr := Run.replay step new readBetween
  rw [(refusals_clean_iff hr).2 ?_]
  · decide +kernel
  · decide +kernel

/-- **A refused snapshot moves the epoch.** The second snapshot meets a mailbox that still holds the first:
    `Busy`, with its epoch stored. -/
theorem refusal_strands_epoch :
    ¬ ∀ (h : List PageEvent) (page : QuantumCrestPage), Run step (fun _ _ => True) new h page →
      (∀ e ∈ h, e.result.refused → e.post = e.pre) ∧
        page.epochs = (lastEpoch publishedEpoch h, lastEpoch submittedEpoch h) := by
  intro hall
  have hr := Run.replay step new
    [.kernelPublishSnapshot (.stamped 1 7), .kernelPublishSnapshot (.stamped 2 8)]
  exact absurd (hall _ _ hr).2 (by decide +kernel)

end QuantumCrestPage

end Slope.Crest
