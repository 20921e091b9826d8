import Mathlib.Data.List.Perm.Basic
import Slope.Fs.Transfer

/-!
# `Fs.Ownership` — handles over the whole life of a process

A process owns files and directory cursors; each has a handle and closes it when it is dropped, when its
variable is assigned anew, or never. Beside them it may use the functions of `fs.rs` on raw handles: a handle is
a plain number, and a file lends its own. Nothing here depends on what the kernel answers: it may refuse a close,
hand out a handle twice, or count what it likes.

The law is one of bookkeeping. For every handle, the opens that returned it are the closes that named it, the
values that own it, and what the raw calls have opened and not closed. What the raw calls do is up to the
program: where they use a handle in order, no request ever names it when it is closed.
-/

namespace Slope.Fs

/-- A value that owns a handle. -/
inductive Owned where
  | file (f : AkashicFile)
  | dir (d : AkashicDir)
  deriving DecidableEq

def Owned.handle : Owned → AkashicHandle
  | file f => f.handle
  | dir d => d.handle

/-- What a process does. `i` is the place of a value among those it owns; a raw call takes any handle. -/
inductive Op where
  | openFile (path : List U8) (openFlags : U32)
  | openDir (path : List U8)
  | reopenFile (i : Nat) (path : List U8) (openFlags : U32)
  | reopenDir (i : Nat) (path : List U8)
  | read (i : Nat) (buf : List U8)
  | write (i : Nat) (buf : List U8)
  | writeAll (i : Nat) (buf : List U8)
  | seek (i : Nat) (offset : U64) (whence : U32)
  | rewind (i : Nat)
  | nextEntry (i : Nat)
  | drop (i : Nat)
  | handle (i : Nat)
  | openRaw (path : List U8) (openFlags : U32)
  | closeRaw (handle : AkashicHandle)
  | readRaw (handle : AkashicHandle) (buf : List U8)
  | writeRaw (handle : AkashicHandle) (buf : List U8)
  | seekRaw (handle : AkashicHandle) (offset : U64) (whence : U32)
  | stat (path : List U8)
  | mkdir (path : List U8)
  | unlink (path : List U8)
  | rename (source target : List U8)

/-- What an operation gives back; `illTyped` stands for a program that does not compile. -/
inductive Reply where
  | settled (result : Except FsError Unit)
  | counted (result : Except FsError U64)
  | filled (result : Except FsError U64) (buf : List U8)
  | wrote (outcome : Outcome (Except FsError Unit))
  | entry (result : Except FsError (Option Dirent))
  | described (result : Except FsError AkashicStat)
  | dropped
  | lent (handle : AkashicHandle)
  | opened (result : Except FsError AkashicHandle)
  | illTyped

structure Process (κ : Type) where
  world : World κ
  owned : List Owned

namespace Process

variable {κ : Type}

def new (kernel : κ) : Process κ := ⟨⟨kernel, []⟩, []⟩

variable (k : Kernel κ)

/-- A value that was opened goes to a new variable; an error leaves everything as it is. -/
def keep (p : Process κ) (opened : Except FsError Owned × World κ) : Reply × Process κ :=
  match opened with
  | (.ok o, w) => (.settled (.ok ()), ⟨w, p.owned ++ [o]⟩)
  | (.error e, w) => (.settled (.error e), { p with world := w })

/-- `x = T::open(..)?`: the new value is opened first, then the old one is dropped. -/
def replace (p : Process κ) (i : Nat) (opened : Except FsError Owned × World κ) : Reply × Process κ :=
  match p.owned[i]?, opened with
  | some old, (.ok o, w) => (.settled (.ok ()), ⟨(close k old.handle w).2, p.owned.set i o⟩)
  | some _, (.error e, w) => (.settled (.error e), { p with world := w })
  | none, _ => (.illTyped, p)

/-- An operation on the file at `i`. -/
def onFile (p : Process κ) (i : Nat) (act : AkashicFile → World κ → Reply × World κ) : Reply × Process κ :=
  match p.owned[i]? with
  | some (.file f) => let (r, w) := act f p.world; (r, { p with world := w })
  | _ => (.illTyped, p)

def step (p : Process κ) : Op → Reply × Process κ
  | .openFile path openFlags =>
    let (f, w) := AkashicFile.open' k path openFlags p.world
    p.keep (f.map .file, w)
  | .openDir path =>
    let (d, w) := AkashicDir.open' k path p.world
    p.keep (d.map .dir, w)
  | .reopenFile i path openFlags =>
    let (f, w) := AkashicFile.open' k path openFlags p.world
    p.replace k i (f.map .file, w)
  | .reopenDir i path =>
    let (d, w) := AkashicDir.open' k path p.world
    p.replace k i (d.map .dir, w)
  | .read i buf => p.onFile i fun f w => let ((r, buf), w) := f.read k buf w; (.filled r buf, w)
  | .write i buf => p.onFile i fun f w => let (r, w) := f.write k buf w; (.counted r, w)
  | .writeAll i buf => p.onFile i fun f w => let (r, w) := f.writeAll k buf w; (.wrote r, w)
  | .seek i offset whence => p.onFile i fun f w => let (r, w) := f.seek k offset whence w; (.counted r, w)
  | .rewind i => p.onFile i fun f w => let (r, w) := f.rewind k w; (.settled r, w)
  | .nextEntry i =>
    match p.owned[i]? with
    | some (.dir d) => let (r, d, w) := d.nextEntry k p.world; (.entry r, ⟨w, p.owned.set i (.dir d)⟩)
    | _ => (.illTyped, p)
  | .drop i =>
    match p.owned[i]? with
    | some (.file f) => (.dropped, ⟨f.drop k p.world, p.owned.eraseIdx i⟩)
    | some (.dir d) => (.dropped, ⟨d.drop k p.world, p.owned.eraseIdx i⟩)
    | none => (.illTyped, p)
  | .handle i => p.onFile i fun f w => (.lent f.handle, w)
  | .openRaw path openFlags => let (r, w) := Fs.open' k path openFlags p.world; (.opened r, { p with world := w })
  | .closeRaw handle => let (r, w) := Fs.close k handle p.world; (.settled r, { p with world := w })
  | .readRaw handle buf =>
    let ((r, buf), w) := Fs.read k handle buf p.world
    (.filled r buf, { p with world := w })
  | .writeRaw handle buf => let (r, w) := Fs.write k handle buf p.world; (.counted r, { p with world := w })
  | .seekRaw handle offset whence =>
    let (r, w) := Fs.seekTo k handle offset whence p.world
    (.counted r, { p with world := w })
  | .stat path => let (r, w) := Fs.stat k path p.world; (.described r, { p with world := w })
  | .mkdir path => let (r, w) := Fs.mkdir k path p.world; (.settled r, { p with world := w })
  | .unlink path => let (r, w) := Fs.unlink k path p.world; (.settled r, { p with world := w })
  | .rename source target =>
    let (r, w) := Fs.rename k source target p.world
    (.settled r, { p with world := w })

end Process

/-! ## Opens, closes and owners -/

/-- The exchange opened `handle`. -/
def Exchange.opens (handle : AkashicHandle) (e : Exchange) : Bool :=
  match e.request with
  | .aopen _ _ => decide (syscallResult e.rax = .ok handle.raw)
  | _ => false

/-- The exchange closed `handle`, whatever the kernel said to it. -/
def Exchange.closes (handle : AkashicHandle) (e : Exchange) : Bool := decide (e.request = .aclose handle)

def opens (handle : AkashicHandle) (es : List Exchange) : Nat := es.countP (Exchange.opens handle)

def closes (handle : AkashicHandle) (es : List Exchange) : Nat := es.countP (Exchange.closes handle)

/-- **The law**, for a stake in each handle: its opens are its closes and the stake. On the handles of `S`, no
    request names one that has as many closes behind it as opens. -/
structure Balanced (S : AkashicHandle → Prop) (es : List Exchange) (stake : AkashicHandle → Int) : Prop where
  balance : ∀ h, (opens h es : Int) = closes h es + stake h
  live : ∀ before e after, es = before ++ e :: after → ∀ h, S h → e.request.handle? = some h →
    closes h before < opens h before

namespace Balanced

variable {S : AkashicHandle → Prop} {es : List Exchange} {stake : AkashicHandle → Int} {handle : AkashicHandle}
  {r : Request} {rax : U64}

theorem start : Balanced S [] fun _ => 0 := ⟨fun _ => rfl, fun before e after he => by simp at he⟩

theorem congr {stake' : AkashicHandle → Int} (h : Balanced S es stake)
    (heq : ∀ handle, stake handle = stake' handle) : Balanced S es stake' :=
  ⟨fun handle => by rw [h.balance, heq], h.live⟩

theorem mono {S' : AkashicHandle → Prop} (h : Balanced S es stake) (himp : ∀ handle, S' handle → S handle) :
    Balanced S' es stake :=
  ⟨h.balance, fun before e after he handle hS => h.live before e after he handle (himp handle hS)⟩

/-- One more exchange; a handle of `S` that it names has a stake. -/
theorem snoc {stake' : AkashicHandle → Int} (h : Balanced S es stake)
    (hnamed : ∀ handle, S handle → r.handle? = some handle → 0 < stake handle)
    (hstake : ∀ handle, stake' handle = stake handle + (if Exchange.opens handle ⟨r, rax⟩ then 1 else 0)
      - (if Exchange.closes handle ⟨r, rax⟩ then 1 else 0)) :
    Balanced S (es ++ [⟨r, rax⟩]) stake' := by
  refine ⟨?_, ?_⟩
  · intro handle
    have hbefore := h.balance handle
    have hstep := hstake handle
    unfold opens closes at hbefore ⊢
    rw [List.countP_append, List.countP_append, List.countP_singleton, List.countP_singleton]
    push_cast
    omega
  · intro before e after he handle hS hreq
    obtain ⟨rfl, rfl, -⟩ | ⟨after', -, rfl⟩ := snoc_cut he
    · have hpos := hnamed handle hS hreq
      have hbefore := h.balance handle
      omega
    · exact h.live before e after' rfl handle hS hreq

/-- A request that neither opens nor closes. -/
theorem neutral (h : Balanced S es stake)
    (hnamed : ∀ handle, S handle → r.handle? = some handle → 0 < stake handle)
    (hopen : ∀ handle, Exchange.opens handle ⟨r, rax⟩ = false)
    (hclose : ∀ handle, Exchange.closes handle ⟨r, rax⟩ = false) : Balanced S (es ++ [⟨r, rax⟩]) stake := by
  refine h.snoc hnamed ?_
  intro handle
  rw [hopen, hclose]
  simp

/-- A request that names no handle and opens none. -/
theorem path (h : Balanced S es stake) (hnone : r.handle? = none)
    (hopen : ∀ handle, Exchange.opens handle ⟨r, rax⟩ = false) : Balanced S (es ++ [⟨r, rax⟩]) stake := by
  refine h.neutral (fun handle _ hreq => ?_) hopen fun handle => ?_
  · cases hnone.symm.trans hreq
  · unfold Exchange.closes
    rw [decide_eq_false_iff_not]
    rintro rfl
    cases hnone

theorem refused {path : List U8} {openFlags : U32} {e : SyscallError} (h : Balanced S es stake)
    (hres : syscallResult rax = .error e) : Balanced S (es ++ [⟨.aopen path openFlags, rax⟩]) stake := by
  refine h.path rfl fun handle => ?_
  simp [Exchange.opens, hres]

theorem opened (path : List U8) (openFlags : U32) {raw : U64} (h : Balanced S es stake)
    (hres : syscallResult rax = .ok raw) :
    Balanced S (es ++ [⟨.aopen path openFlags, rax⟩])
      fun handle => stake handle + if (⟨raw⟩ : AkashicHandle) = handle then 1 else 0 := by
  refine h.snoc (fun handle _ hreq => by cases hreq) ?_
  intro handle
  have hopens : Exchange.opens handle ⟨.aopen path openFlags, rax⟩
      = decide ((⟨raw⟩ : AkashicHandle) = handle) := by
    simp only [Exchange.opens, hres, Except.ok.injEq]
    congr 1
    rw [AkashicHandle.mk.injEq]
  have hcloses : Exchange.closes handle ⟨.aopen path openFlags, rax⟩ = false := rfl
  rw [hopens, hcloses]
  simp

theorem closed (h : Balanced S es stake) (hpos : S handle → 0 < stake handle) :
    Balanced S (es ++ [⟨.aclose handle, rax⟩])
      fun handle' => stake handle' - if handle = handle' then 1 else 0 := by
  refine h.snoc (fun handle' hS hreq => ?_) ?_
  · cases hreq
    exact hpos hS
  · intro handle'
    have hopens : Exchange.opens handle' ⟨.aclose handle, rax⟩ = false := rfl
    have hcloses : Exchange.closes handle' ⟨.aclose handle, rax⟩ = decide (handle = handle') := by
      simp only [Exchange.closes, Request.aclose.injEq]
    rw [hopens, hcloses]
    simp

/-- A request on a handle with a stake. -/
theorem request (h : Balanced S es stake) (hpos : S handle → 0 < stake handle) (hreq : r.handle? = some handle)
    (hclose : ∀ handle, r ≠ .aclose handle) : Balanced S (es ++ [⟨r, rax⟩]) stake := by
  refine h.neutral (fun handle' hS he => ?_) (fun handle' => ?_) fun handle' => ?_
  · cases hreq.symm.trans he
    exact hpos hS
  · cases r <;> first | rfl | cases hreq
  · exact decide_eq_false (hclose handle')

/-- `write_all`: any number of offers to a handle with a stake. -/
theorem offered {buf : List U8} {es' : List Exchange} (h : Balanced S es stake) (hpos : S handle → 0 < stake handle)
    (hcont : Contiguous handle buf es') : Balanced S (es ++ es') stake := by
  have hreq : ∀ e ∈ es', ∃ rest, e.request = .awrite handle rest := by
    intro e he
    obtain ⟨before, after, rfl⟩ := List.append_of_mem he
    obtain ⟨rest, -, hrest, -⟩ := hcont before e after rfl
    exact ⟨rest, hrest⟩
  clear hcont
  induction es' generalizing es with
  | nil => rwa [List.append_nil]
  | cons e es' ih =>
      obtain ⟨rest, hrest⟩ := hreq e List.mem_cons_self
      obtain ⟨r, rax⟩ := e
      cases hrest
      have hnext : Balanced S (es ++ [⟨.awrite handle rest, rax⟩]) stake :=
        h.request hpos rfl fun _ he => by cases he
      have hall := ih hnext fun e he => hreq e (List.mem_cons_of_mem _ he)
      rwa [List.append_assoc, List.singleton_append] at hall

end Balanced

/-! ## One operation -/

theorem map_map {ε α β γ : Type} (x : Except ε α) (g : α → β) (g' : β → γ) :
    (x.map g).map g' = x.map fun a => g' (g a) := by
  cases x <;> rfl

namespace Process

variable {κ : Type} {k : Kernel κ} {p : Process κ}

/-- The values that own a handle. -/
def owners (p : Process κ) (handle : AkashicHandle) : Nat := (p.owned.map Owned.handle).count handle

/-- The law for a process whose raw calls have a stake of their own. -/
def Held (S : AkashicHandle → Prop) (raw : AkashicHandle → Int) (p : Process κ) : Prop :=
  Balanced S p.world.log fun handle => p.owners handle + raw handle

theorem owners_eq (p : Process κ) {i : Nat} {o : Owned} (ho : p.owned[i]? = some o) (handle : AkashicHandle) :
    p.owners handle
      = ((p.owned.eraseIdx i).map Owned.handle).count handle + if o.handle = handle then 1 else 0 := by
  obtain ⟨hi, rfl⟩ := List.getElem?_eq_some_iff.mp ho
  have hp := (List.getElem_cons_eraseIdx_perm hi).symm.map Owned.handle
  rw [owners, hp.count_eq, List.map_cons, List.count_cons]
  simp

theorem owners_set {i : Nat} {o : Owned} (o' : Owned) (ho : p.owned[i]? = some o) (handle : AkashicHandle) :
    ((p.owned.set i o').map Owned.handle).count handle
      = ((p.owned.eraseIdx i).map Owned.handle).count handle + if o'.handle = handle then 1 else 0 := by
  obtain ⟨hi, -⟩ := List.getElem?_eq_some_iff.mp ho
  have hp := (List.set_perm_cons_eraseIdx hi o').map Owned.handle
  rw [hp.count_eq, List.map_cons, List.count_cons]
  simp

/-- A value that is owned is a stake in its handle, when the raw calls have not taken it away. -/
theorem stake_pos {S : AkashicHandle → Prop} {raw : AkashicHandle → Int}
    (hraw : ∀ handle, S handle → 0 ≤ raw handle) {i : Nat} {o : Owned} (ho : p.owned[i]? = some o)
    (hS : S o.handle) : 0 < (p.owners o.handle : Int) + raw o.handle := by
  have howners := p.owners_eq ho o.handle
  have hstake := hraw o.handle hS
  rw [if_pos rfl] at howners
  omega

/-- `open`, by the word that the kernel answered. -/
theorem open_cases (k : Kernel κ) (path : List U8) (openFlags : U32) (w : World κ) :
    ∃ rax, (open' k path openFlags w).2.log = w.log ++ [⟨.aopen path openFlags, rax⟩] ∧
      ((∃ raw, syscallResult rax = .ok raw ∧ (open' k path openFlags w).1 = .ok ⟨raw⟩) ∨
        ∃ e, syscallResult rax = .error e ∧ (open' k path openFlags w).1 = .error (.ofSyscall e)) := by
  refine ⟨(k.serve w.kernel (.aopen path openFlags)).1.1, rfl, ?_⟩
  show (∃ raw, _ ∧ ((syscallResult _).mapError FsError.ofSyscall).map AkashicHandle.mk = _) ∨
    ∃ e, _ ∧ ((syscallResult _).mapError FsError.ofSyscall).map AkashicHandle.mk = _
  cases hres : syscallResult (k.serve w.kernel (.aopen path openFlags)).1.1 with
  | ok raw => exact .inl ⟨raw, rfl, rfl⟩
  | error e => exact .inr ⟨e, rfl, rfl⟩

variable {S : AkashicHandle → Prop} {raw : AkashicHandle → Int}

/-- Opening a value of either kind and giving it to a new variable. -/
theorem Held.keep (h : p.Held S raw) {path : List U8} {openFlags : U32} (make : AkashicHandle → Owned)
    (hmake : ∀ handle, (make handle).handle = handle) {opened : Except FsError Owned}
    (hopened : opened = (open' k path openFlags p.world).1.map make) :
    Held S raw (p.keep (opened, (open' k path openFlags p.world).2)).2 := by
  subst hopened
  obtain ⟨rax, hlog, ⟨word, hres, heq⟩ | ⟨e, hres, heq⟩⟩ := open_cases k path openFlags p.world
  · rw [heq]
    show Balanced S (open' k path openFlags p.world).2.log _
    rw [hlog]
    refine (Balanced.opened path openFlags h hres).congr ?_
    intro handle
    show _ = ((((p.owned ++ [make ⟨word⟩]).map Owned.handle).count handle : Nat) : Int) + raw handle
    rw [List.map_append, List.map_singleton, hmake, List.count_append, List.count_singleton, owners]
    simp only [beq_iff_eq]
    push_cast
    omega
  · rw [heq]
    show Balanced S (open' k path openFlags p.world).2.log _
    rw [hlog]
    exact Balanced.refused h hres

/-- Opening a value and assigning it to a variable that has one. -/
theorem Held.replace (h : p.Held S raw) (hraw : ∀ handle, S handle → 0 ≤ raw handle) {i : Nat} {path : List U8}
    {openFlags : U32} (make : AkashicHandle → Owned) (hmake : ∀ handle, (make handle).handle = handle)
    {opened : Except FsError Owned} (hopened : opened = (open' k path openFlags p.world).1.map make) :
    Held S raw (p.replace k i (opened, (open' k path openFlags p.world).2)).2 := by
  subst hopened
  cases ho : p.owned[i]? with
  | none =>
      unfold Process.replace
      rw [ho]
      exact h
  | some old =>
      unfold Process.replace
      rw [ho]
      obtain ⟨rax, hlog, ⟨word, hres, heq⟩ | ⟨e, hres, heq⟩⟩ := open_cases k path openFlags p.world
      · rw [heq]
        show Balanced S ((open' k path openFlags p.world).2.log ++ [⟨.aclose old.handle, _⟩]) _
        rw [hlog]
        have hopened := Balanced.opened path openFlags h hres
        refine (hopened.closed fun hS => ?_).congr ?_
        · have hpos := stake_pos hraw ho hS
          split <;> omega
        · intro handle
          show _ = ((((p.owned.set i (make ⟨word⟩)).map Owned.handle).count handle : Nat) : Int) + raw handle
          rw [owners_set (make ⟨word⟩) ho handle, p.owners_eq ho handle, hmake]
          push_cast
          omega
      · rw [heq]
        show Balanced S (open' k path openFlags p.world).2.log _
        rw [hlog]
        exact Balanced.refused h hres

/-- An operation on a file that logs what keeps the law. -/
theorem Held.onFile (h : p.Held S raw) (hraw : ∀ handle, S handle → 0 ≤ raw handle) {i : Nat}
    {act : AkashicFile → World κ → Reply × World κ}
    (hact : ∀ f, (S f.handle → 0 < (p.owners f.handle : Int) + raw f.handle) →
      Balanced S (act f p.world).2.log fun handle => p.owners handle + raw handle) :
    Held S raw (p.onFile i act).2 := by
  unfold Process.onFile
  split
  next f ho => exact hact f fun hS => stake_pos hraw ho hS
  · exact h

theorem Held.drop (h : p.Held S raw) (hraw : ∀ handle, S handle → 0 ≤ raw handle) {i : Nat} {o : Owned}
    {rax : U64} (ho : p.owned[i]? = some o) :
    Balanced S (p.world.log ++ [⟨.aclose o.handle, rax⟩])
      fun handle => (((p.owned.eraseIdx i).map Owned.handle).count handle : Int) + raw handle := by
  refine (Balanced.closed h fun hS => stake_pos hraw ho hS).congr ?_
  intro handle
  have howners := p.owners_eq ho handle
  split at howners
  next heq => rw [if_pos heq]; omega
  next hne => rw [if_neg hne]; omega

/-- What a cursor asks when it moves on. -/
theorem nextEntry_asks (k : Kernel κ) (d : AkashicDir) (w : World κ) :
    (d.nextEntry k w).2.1.handle = d.handle ∧ ((d.nextEntry k w).2.2 = w ∨
      ∃ rax, (d.nextEntry k w).2.2.log = w.log ++ [⟨.areaddir d.handle, rax⟩]) := by
  unfold AkashicDir.nextEntry
  split
  · exact ⟨rfl, .inl rfl⟩
  · have hlog : ∃ rax, (syscall k (.areaddir d.handle) w).2.log = w.log ++ [⟨.areaddir d.handle, rax⟩] :=
      ⟨_, rfl⟩
    generalize syscall k (.areaddir d.handle) w = answer at hlog
    obtain ⟨⟨result, raw⟩, w'⟩ := answer
    cases result with
    | ok n =>
        dsimp only
        split
        · exact ⟨rfl, .inr hlog⟩
        · exact ⟨rfl, .inr hlog⟩
    | error e => exact ⟨rfl, .inr hlog⟩

/-- A cursor that moves on keeps its handle. -/
theorem Held.nextEntry (h : p.Held S raw) (hraw : ∀ handle, S handle → 0 ≤ raw handle) {i : Nat}
    {d : AkashicDir} (ho : p.owned[i]? = some (.dir d)) :
    Balanced S (d.nextEntry k p.world).2.2.log fun handle =>
      (((p.owned.set i (.dir (d.nextEntry k p.world).2.1)).map Owned.handle).count handle : Int) + raw handle := by
  obtain ⟨hhandle, hworld⟩ := nextEntry_asks k d p.world
  have hsame : ∀ handle, ((p.owned.set i (.dir (d.nextEntry k p.world).2.1)).map Owned.handle).count handle
      = p.owners handle := by
    intro handle
    rw [owners_set _ ho handle, p.owners_eq ho handle]
    exact congrArg (fun x => _ + if x = handle then 1 else 0) hhandle
  simp only [hsame]
  rcases hworld with heq | ⟨rax, hlog⟩
  · rw [heq]
    exact h
  · rw [hlog]
    exact Balanced.request h (fun hS => stake_pos hraw ho hS) rfl fun _ he => by cases he

end Process

/-! ## The raw calls of a program -/

section

variable {κ : Type}

abbrev FsEvent (κ : Type) := Event (Process κ) Op Reply

def Reply.openedHandle? : Reply → Option AkashicHandle
  | .opened (.ok handle) => some handle
  | _ => none

/-- The event is a raw open that returned `handle`. -/
def rawOpens (handle : AkashicHandle) (e : FsEvent κ) : Bool :=
  match e.call with
  | .openRaw _ _ => decide (e.result.openedHandle? = some handle)
  | _ => false

/-- The event is a raw close of `handle`. -/
def rawCloses (handle : AkashicHandle) (e : FsEvent κ) : Bool :=
  match e.call with
  | .closeRaw handle' => decide (handle' = handle)
  | _ => false

def rawOpened (handle : AkashicHandle) (es : List (FsEvent κ)) : Nat := es.countP (rawOpens handle)

def rawClosed (handle : AkashicHandle) (es : List (FsEvent κ)) : Nat := es.countP (rawCloses handle)

/-- What the raw calls have opened and not closed. -/
def rawStake (es : List (FsEvent κ)) (handle : AkashicHandle) : Int := rawOpened handle es - rawClosed handle es

/-- The next operation uses `handle` in order: a raw close is of one that a raw open returned, and that is not
    closed since; a raw read, write or seek is on one of these, or on one that a living file lends. -/
def InOrder (handle : AkashicHandle) (es : List (FsEvent κ)) (p : Process κ) : Op → Prop
  | .closeRaw handle' => handle' = handle → rawClosed handle es < rawOpened handle es
  | .readRaw handle' _ | .writeRaw handle' _ | .seekRaw handle' _ _ =>
    handle' = handle → rawClosed handle es < rawOpened handle es ∨ 0 < p.owners handle
  | _ => True

/-- The raw calls of a run have used `handle` in order. -/
def Disciplined (handle : AkashicHandle) (es : List (FsEvent κ)) : Prop :=
  ∀ before e after, es = before ++ e :: after → InOrder handle before e.pre e.call

theorem Disciplined.of_snoc {handle : AkashicHandle} {es : List (FsEvent κ)} {e : FsEvent κ}
    (h : Disciplined handle (es ++ [e])) : Disciplined handle es ∧ InOrder handle es e.pre e.call := by
  refine ⟨?_, h es e [] rfl⟩
  intro before e' after he
  exact h before e' (after ++ [e]) (by rw [he, List.append_assoc, List.cons_append])

theorem rawStake_snoc (es : List (FsEvent κ)) (e : FsEvent κ) (handle : AkashicHandle) :
    rawStake (es ++ [e]) handle = rawStake es handle + (if rawOpens handle e then 1 else 0)
      - (if rawCloses handle e then 1 else 0) := by
  unfold rawStake rawOpened rawClosed
  rw [List.countP_append, List.countP_append, List.countP_singleton, List.countP_singleton]
  push_cast
  omega

end

/-! ## Whole runs -/

namespace Process

variable {κ : Type} {k : Kernel κ} {p : Process κ} {es : List (FsEvent κ)}

/-- **The invariant**, on the handles that the raw calls have used in order: the law, with a stake of the raw
    calls that is never negative. -/
structure Settled (es : List (FsEvent κ)) (p : Process κ) : Prop where
  held : p.Held (Disciplined · es) (rawStake es)
  covered : ∀ handle, Disciplined handle es → 0 ≤ rawStake es handle

/-- An event that is neither a raw open nor a raw close keeps the stake of the raw calls. -/
theorem Settled.of_held {e : FsEvent κ} (h : Settled es e.pre)
    (hheld : e.post.Held (Disciplined · (es ++ [e])) (rawStake es)) (hopens : ∀ handle, rawOpens handle e = false)
    (hcloses : ∀ handle, rawCloses handle e = false) : Settled (es ++ [e]) e.post := by
  have hstake : ∀ handle, rawStake (es ++ [e]) handle = rawStake es handle := by
    intro handle
    rw [rawStake_snoc, hopens, hcloses]
    simp
  refine ⟨hheld.congr fun handle => by rw [hstake], ?_⟩
  intro handle hS
  rw [hstake]
  exact h.covered handle hS.of_snoc.1

/-- A raw request in order is on a handle with a stake. -/
theorem rawRequest_pos {handle : AkashicHandle}
    (horder : rawClosed handle es < rawOpened handle es ∨ 0 < p.owners handle) (hraw : 0 ≤ rawStake es handle) :
    0 < (p.owners handle : Int) + rawStake es handle := by
  unfold rawStake at hraw ⊢
  omega

/-- A raw open adds to the stake of the raw calls what it returned. -/
theorem Settled.openRaw (h : Settled es p) (path : List U8) (openFlags : U32) :
    Settled (es ++ [Event.of (Process.step k) p (.openRaw path openFlags)])
      (p.step k (.openRaw path openFlags)).2 := by
  have hlaw := h.held.mono fun handle (hS : Disciplined handle
    (es ++ [Event.of (Process.step k) p (.openRaw path openFlags)])) => hS.of_snoc.1
  have hcloses : ∀ handle, rawCloses handle (Event.of (Process.step k) p (.openRaw path openFlags)) = false :=
    fun _ => rfl
  have hopens : ∀ handle, rawOpens handle (Event.of (Process.step k) p (.openRaw path openFlags))
      = decide ((Reply.opened (open' k path openFlags p.world).1).openedHandle? = some handle) := fun _ => rfl
  obtain ⟨rax, hlog, ⟨word, hres, heq⟩ | ⟨e, hres, heq⟩⟩ := open_cases k path openFlags p.world
  · have hstake : ∀ handle, rawStake (es ++ [Event.of (Process.step k) p (.openRaw path openFlags)]) handle
        = rawStake es handle + if (⟨word⟩ : AkashicHandle) = handle then 1 else 0 := by
      intro handle
      rw [rawStake_snoc, hcloses, hopens, heq, Reply.openedHandle?]
      simp
    refine ⟨?_, ?_⟩
    · show Balanced _ (open' k path openFlags p.world).2.log _
      rw [hlog]
      refine (Balanced.opened path openFlags hlaw hres).congr fun handle => ?_
      rw [hstake]
      exact Int.add_assoc ..
    · intro handle hS
      have hraw := h.covered handle hS.of_snoc.1
      rw [hstake]
      split <;> omega
  · refine Settled.of_held (e := Event.of (Process.step k) p (.openRaw path openFlags)) h ?_ ?_ hcloses
    · show Balanced _ (open' k path openFlags p.world).2.log _
      rw [hlog]
      exact Balanced.refused hlaw hres
    · intro handle
      rw [hopens, heq]
      rfl

/-- A raw close takes from it. -/
theorem Settled.closeRaw (h : Settled es p) (handle : AkashicHandle) :
    Settled (es ++ [Event.of (Process.step k) p (.closeRaw handle)]) (p.step k (.closeRaw handle)).2 := by
  have hlaw := h.held.mono fun handle' (hS : Disciplined handle'
    (es ++ [Event.of (Process.step k) p (.closeRaw handle)])) => hS.of_snoc.1
  have hstake : ∀ handle', rawStake (es ++ [Event.of (Process.step k) p (.closeRaw handle)]) handle'
      = rawStake es handle' - if handle = handle' then 1 else 0 := by
    intro handle'
    rw [rawStake_snoc, show rawOpens handle' (Event.of (Process.step k) p (.closeRaw handle)) = false from rfl,
      show rawCloses handle' (Event.of (Process.step k) p (.closeRaw handle)) = decide (handle = handle') from rfl]
    simp
  have hpos : ∀ handle', Disciplined handle' (es ++ [Event.of (Process.step k) p (.closeRaw handle)]) →
      handle = handle' → 0 < rawStake es handle' := by
    intro handle' hS heq
    have horder := hS.of_snoc.2 heq
    unfold rawStake
    omega
  refine ⟨?_, ?_⟩
  · refine (Balanced.closed hlaw fun hS => ?_).congr fun handle' => ?_
    · have := hpos handle hS rfl
      omega
    · show _ = (p.owners handle' : Int) + _
      rw [hstake]
      omega
  · intro handle' hS
    have hraw := h.covered handle' hS.of_snoc.1
    rw [hstake]
    split
    next heq => have := hpos handle' hS heq; omega
    · omega

/-- **One operation keeps the law.** -/
theorem Settled.step (h : Settled es p) (op : Op) :
    Settled (es ++ [Event.of (Process.step k) p op]) (p.step k op).2 := by
  have hheld : p.Held (Disciplined · (es ++ [Event.of (Process.step k) p op])) (rawStake es) :=
    h.held.mono fun _ hS => hS.of_snoc.1
  have hraw : ∀ handle, Disciplined handle (es ++ [Event.of (Process.step k) p op]) → 0 ≤ rawStake es handle :=
    fun handle hS => h.covered handle hS.of_snoc.1
  have hvalue := fun hnew => Settled.of_held (e := Event.of (Process.step k) p op) h hnew
  have horder : ∀ handle, Disciplined handle (es ++ [Event.of (Process.step k) p op]) → InOrder handle es p op :=
    fun _ hS => hS.of_snoc.2
  cases op with
  | openFile path openFlags =>
      refine hvalue (hheld.keep (fun handle => .file ⟨handle⟩) (fun _ => rfl) ?_) (fun _ => rfl) fun _ => rfl
      exact map_map _ _ _
  | openDir path =>
      refine hvalue (hheld.keep (fun handle => .dir ⟨handle, false⟩) (fun _ => rfl) ?_) (fun _ => rfl)
        fun _ => rfl
      exact map_map _ _ _
  | reopenFile i path openFlags =>
      refine hvalue (hheld.replace hraw (fun handle => .file ⟨handle⟩) (fun _ => rfl) ?_) (fun _ => rfl)
        fun _ => rfl
      exact map_map _ _ _
  | reopenDir i path =>
      refine hvalue (hheld.replace hraw (fun handle => .dir ⟨handle, false⟩) (fun _ => rfl) ?_) (fun _ => rfl)
        fun _ => rfl
      exact map_map _ _ _
  | read i buf =>
      refine hvalue (hheld.onFile hraw fun f hpos => ?_) (fun _ => rfl) fun _ => rfl
      exact Balanced.request hheld hpos rfl fun _ he => by cases he
  | write i buf =>
      refine hvalue (hheld.onFile hraw fun f hpos => ?_) (fun _ => rfl) fun _ => rfl
      exact Balanced.request hheld hpos rfl fun _ he => by cases he
  | writeAll i buf =>
      refine hvalue (hheld.onFile hraw fun f hpos => ?_) (fun _ => rfl) fun _ => rfl
      obtain ⟨es', hlog, hcont⟩ := writeAll_contiguous k f buf p.world
      show Balanced _ (f.writeAll k buf p.world).2.log _
      rw [hlog]
      exact Balanced.offered hheld hpos hcont
  | seek i offset whence =>
      refine hvalue (hheld.onFile hraw fun f hpos => ?_) (fun _ => rfl) fun _ => rfl
      exact Balanced.request hheld hpos rfl fun _ he => by cases he
  | rewind i =>
      refine hvalue (hheld.onFile hraw fun f hpos => ?_) (fun _ => rfl) fun _ => rfl
      exact Balanced.request hheld hpos rfl fun _ he => by cases he
  | nextEntry i =>
      refine hvalue ?_ (fun _ => rfl) fun _ => rfl
      show Held _ _ (p.step k (.nextEntry i)).2
      unfold Process.step
      dsimp only
      split
      next d ho => exact hheld.nextEntry hraw ho
      · exact hheld
  | drop i =>
      refine hvalue ?_ (fun _ => rfl) fun _ => rfl
      show Held _ _ (p.step k (.drop i)).2
      unfold Process.step
      dsimp only
      split
      next f ho => exact hheld.drop hraw ho
      next d ho => exact hheld.drop hraw ho
      · exact hheld
  | handle i => exact hvalue (hheld.onFile hraw fun f hpos => hheld) (fun _ => rfl) fun _ => rfl
  | openRaw path openFlags => exact h.openRaw path openFlags
  | closeRaw handle => exact h.closeRaw handle
  | readRaw handle buf =>
      refine hvalue (Balanced.request hheld (fun hS => ?_) rfl fun _ he => by cases he) (fun _ => rfl) fun _ => rfl
      exact rawRequest_pos (horder handle hS rfl) (hraw handle hS)
  | writeRaw handle buf =>
      refine hvalue (Balanced.request hheld (fun hS => ?_) rfl fun _ he => by cases he) (fun _ => rfl) fun _ => rfl
      exact rawRequest_pos (horder handle hS rfl) (hraw handle hS)
  | seekRaw handle offset whence =>
      refine hvalue (Balanced.request hheld (fun hS => ?_) rfl fun _ he => by cases he) (fun _ => rfl) fun _ => rfl
      exact rawRequest_pos (horder handle hS rfl) (hraw handle hS)
  | stat path => exact hvalue (Balanced.path hheld rfl fun _ => rfl) (fun _ => rfl) fun _ => rfl
  | mkdir path => exact hvalue (Balanced.path hheld rfl fun _ => rfl) (fun _ => rfl) fun _ => rfl
  | unlink path => exact hvalue (Balanced.path hheld rfl fun _ => rfl) (fun _ => rfl) fun _ => rfl
  | rename source target => exact hvalue (Balanced.path hheld rfl fun _ => rfl) (fun _ => rfl) fun _ => rfl

/-- **Run lemma.** -/
theorem settled_run {kernel : κ} (hr : Run (Process.step k) (fun _ _ => True) (.new kernel) es p) :
    Settled es p := by
  refine hr.invariant Settled ⟨?_, ?_⟩ ?_
  · exact Balanced.start.congr fun _ => rfl
  · intro handle _
    exact Int.le_refl 0
  · intro es p op _ _ ih
    exact ih.step op

/-- The kernel never hands out the handle while it has been opened more often than closed. -/
def FreshHandle (handle : AkashicHandle) (es : List Exchange) : Prop :=
  ∀ before e after, es = before ++ e :: after → e.opens handle = true →
    opens handle before = closes handle before

theorem FreshHandle.opens_le {handle : AkashicHandle} {es : List Exchange} (hfresh : FreshHandle handle es) :
    opens handle es ≤ closes handle es + 1 := by
  induction es using List.reverseRecOn with
  | nil => exact Nat.zero_le _
  | append_singleton es e ih =>
      have hbefore : FreshHandle handle es := fun before e' after he =>
        hfresh before e' (after ++ [e]) (by rw [he, List.append_assoc, List.cons_append])
      have hle := ih hbefore
      have hlast := hfresh es e [] rfl
      unfold opens closes at hle hlast ⊢
      rw [List.countP_append, List.countP_append, List.countP_singleton, List.countP_singleton]
      by_cases ho : e.opens handle = true
      · rw [if_pos ho, hlast ho]
        omega
      · rw [if_neg ho]
        omega

/-- **Every handle is closed once for each time it was opened and has no owner left, and is never used
    after.** For every kernel and every sequence of operations on files, directory cursors and raw handles,
    whatever the kernel answers to each of them, and for every handle: the opens that returned it and its raw
    closes are together its closes, the values that own it and its raw opens, so that no value leaks it or
    closes it twice. If the raw calls have used it in order, each request that names it, a close included,
    comes at a time when it has been opened more often than closed; and with a kernel that does not hand it out
    while it is open, it has one holder at most, a value or a raw open. -/
theorem handles_balanced (k : Kernel κ) (kernel : κ) (ops : List Op) (handle : AkashicHandle) :
    let p := finalState (Process.step k) (.new kernel) ops
    let es := trace (Process.step k) (.new kernel) ops
    opens handle p.world.log + rawClosed handle es
        = closes handle p.world.log + p.owners handle + rawOpened handle es ∧
    (Disciplined handle es →
      (∀ before e after, p.world.log = before ++ e :: after → e.request.handle? = some handle →
        closes handle before < opens handle before) ∧
      (FreshHandle handle p.world.log →
        p.owners handle + (rawOpened handle es - rawClosed handle es) ≤ 1)) := by
  intro p es
  have hsettled : Settled es p := settled_run (Run.replay (Process.step k) (.new kernel) ops)
  have hbalance := hsettled.held.balance handle
  unfold rawStake at hbalance
  refine ⟨by omega, ?_⟩
  intro hS
  refine ⟨?_, ?_⟩
  · intro before e after he hreq
    exact hsettled.held.live before e after he handle hS hreq
  · intro hfresh
    have hle := hfresh.opens_le
    have hraw := hsettled.covered handle hS
    unfold rawStake at hraw
    omega

end Process

end Slope.Fs
