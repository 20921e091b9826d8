import Slope.Lib.Run
import Slope.Fs.Akashic

/-!
# `Fs.Transfer` — what `write_all` hands to the kernel

`taken` is what the kernel took of the buffers it was offered, in order. The loop of `write_all` keeps one
invariant: what was taken and what is left make up the buffer, and every offer starts where the one before it
ended.
-/

namespace Slope.Fs

/-- What the kernel took in an exchange: the bytes at the front of the buffer that it counted. -/
def Exchange.took (e : Exchange) : List U8 :=
  match e.request with
  | .awrite _ buf =>
    match syscallResult e.rax with
    | .ok n => buf.take n.toNat
    | .error _ => []
  | _ => []

def taken (es : List Exchange) : List U8 := es.flatMap Exchange.took

theorem taken_snoc (es : List Exchange) (e : Exchange) : taken (es ++ [e]) = taken es ++ e.took := by
  unfold taken
  rw [List.flatMap_append, List.flatMap_singleton]

theorem took_awrite {handle : AkashicHandle} {buf : List U8} {rax n : U64} (h : syscallResult rax = .ok n) :
    (Exchange.mk (.awrite handle buf) rax).took = buf.take n.toNat := by
  simp [Exchange.took, h]

/-- Every exchange offers to `handle` what follows of `buf` after what the exchanges before it took. -/
def Contiguous (handle : AkashicHandle) (buf : List U8) (es : List Exchange) : Prop :=
  ∀ before e after, es = before ++ e :: after →
    ∃ rest, rest ≠ [] ∧ e.request = .awrite handle rest ∧ taken before ++ rest = buf

theorem Contiguous.snoc {handle : AkashicHandle} {buf rest : List U8} {es : List Exchange} {rax : U64}
    (h : Contiguous handle buf es) (hrest : rest ≠ []) (hall : taken es ++ rest = buf) :
    Contiguous handle buf (es ++ [⟨.awrite handle rest, rax⟩]) := by
  intro before e after he
  obtain ⟨rfl, rfl, -⟩ | ⟨after', -, rfl⟩ := snoc_cut he
  · exact ⟨rest, hrest, rfl, hall⟩
  · exact h before e after' rfl

section

variable {κ : Type} {k : Kernel κ} {f : AkashicFile} {w w' : World κ} {buf rest : List U8}

/-- One call of `write`, by the word that the kernel answered. -/
theorem sink_cases {answer : Except FsError Nat} (h : f.sink k rest w = (answer, w')) :
    ∃ rax, w'.log = w.log ++ [⟨.awrite f.handle rest, rax⟩] ∧
      ((∃ n, syscallResult rax = .ok n ∧ answer = .ok n.toNat) ∨
        ∃ e, syscallResult rax = .error e ∧ answer = .error (.ofSyscall e)) := by
  obtain ⟨rfl, rfl⟩ := Prod.mk.inj h
  refine ⟨(k.serve w.kernel (.awrite f.handle rest)).1.1, rfl, ?_⟩
  show (∃ n, _ ∧ ((syscallResult _).mapError FsError.ofSyscall).map BitVec.toNat = _) ∨
    ∃ e, _ ∧ ((syscallResult _).mapError FsError.ofSyscall).map BitVec.toNat = _
  cases hres : syscallResult (k.serve w.kernel (.awrite f.handle rest)).1.1 with
  | ok n => exact .inl ⟨n, rfl, rfl⟩
  | error e => exact .inr ⟨e, rfl, rfl⟩

/-- What the loop keeps: `sent` is what the exchanges since `w` took. -/
structure Sending (f : AkashicFile) (buf : List U8) (w : World κ) (es : List Exchange) (sent : List U8)
    (w' : World κ) : Prop where
  log_eq : w'.log = w.log ++ es
  taken_eq : taken es = sent
  length_le : es.length ≤ sent.length
  contiguous : Contiguous f.handle buf es

theorem Sending.round {es : List Exchange} {sent : List U8} {w'' : World κ} {n : Nat}
    (h : Sending f buf w es sent w') (hall : sent ++ rest = buf) (hrest : rest ≠ [])
    (hsink : f.sink k rest w' = (.ok n, w'')) (hpos : 0 < n) (hn : n ≤ rest.length) :
    ∃ es, Sending f buf w es (sent ++ rest.take n) w'' := by
  obtain ⟨rax, hlog, ⟨m, hres, hok⟩ | ⟨e, -, herr⟩⟩ := sink_cases hsink
  · cases hok
    refine ⟨es ++ [⟨.awrite f.handle rest, rax⟩], ?_, ?_, ?_, ?_⟩
    · rw [hlog, h.log_eq, List.append_assoc]
    · rw [taken_snoc, h.taken_eq, took_awrite hres]
    · have hlen := h.length_le
      simp only [List.length_append, List.length_take, List.length_singleton]
      omega
    · exact h.contiguous.snoc hrest (h.taken_eq ▸ hall)
  · cases herr

/-- The last exchange of a `write_all` that broke off. -/
theorem Sending.broke {es : List Exchange} {sent : List U8} {w'' : World κ} {ending : Sink.Ending FsError}
    (h : Sending f buf w es sent w') (hall : sent ++ rest = buf) (hrest : rest ≠ [])
    (hbroke : Sink.Broke (f.sink k) rest w' w'' ending) :
    ∃ rax, w''.log = w.log ++ (es ++ [⟨.awrite f.handle rest, rax⟩]) ∧
      (es ++ [(⟨.awrite f.handle rest, rax⟩ : Exchange)]).length ≤ buf.length ∧
      Contiguous f.handle buf (es ++ [⟨.awrite f.handle rest, rax⟩]) ∧
      ((ending = .stalled ∧ syscallResult rax = .ok 0) ∨
        (∃ e, ending = .failed (.ofSyscall e) ∧ syscallResult rax = .error e) ∨
        ∃ n, ending = .overrun ∧ syscallResult rax = .ok n ∧ rest.length < n.toNat) := by
  have hcases : ∃ answer, f.sink k rest w' = (answer, w'') ∧
      ((ending = .stalled ∧ answer = .ok 0) ∨ (∃ e, ending = .failed e ∧ answer = .error e) ∨
        ∃ n, ending = .overrun ∧ answer = .ok n ∧ rest.length < n) := by
    cases hbroke with
    | failed hsink => exact ⟨_, hsink, .inr (.inl ⟨_, rfl, rfl⟩)⟩
    | stalled hsink => exact ⟨_, hsink, .inl ⟨rfl, rfl⟩⟩
    | overrun hsink hn => exact ⟨_, hsink, .inr (.inr ⟨_, rfl, rfl, hn⟩)⟩
  obtain ⟨answer, hsink, hend⟩ := hcases
  obtain ⟨rax, hlog, hres⟩ := sink_cases hsink
  have hpos := List.length_pos_iff.mpr hrest
  have hlen := h.length_le
  refine ⟨rax, by rw [hlog, h.log_eq, List.append_assoc], ?_, h.contiguous.snoc hrest (h.taken_eq ▸ hall), ?_⟩
  · rw [← hall]
    simp only [List.length_append, List.length_singleton]
    omega
  · rcases hend with ⟨rfl, rfl⟩ | ⟨e, rfl, rfl⟩ | ⟨n, rfl, rfl, hn⟩
    · obtain ⟨m, hres, hm⟩ | ⟨e, -, he⟩ := hres
      · have hzero : m = 0 := by
          rw [BitVec.toNat_eq]
          exact (Except.ok.inj hm).symm
        exact .inl ⟨rfl, hzero ▸ hres⟩
      · cases he
    · obtain ⟨m, -, hm⟩ | ⟨e', hres, he⟩ := hres
      · cases hm
      · cases he
        exact .inr (.inl ⟨e', rfl, hres⟩)
    · obtain ⟨m, hres, hm⟩ | ⟨e, -, he⟩ := hres
      · cases hm
        exact .inr (.inr ⟨m, rfl, hres, hn⟩)
      · cases he

/-- How the loop ends: everything is sent, or it broke off with something left. -/
theorem drain_cases (k : Kernel κ) (f : AkashicFile) (buf : List U8) (w : World κ) :
    ((Sink.drain (f.sink k) buf w).1 = .done ∧ ∃ es, Sending f buf w es buf (Sink.drain (f.sink k) buf w).2) ∨
      ∃ sent rest w', sent ++ rest = buf ∧ rest ≠ [] ∧ (∃ es, Sending f buf w es sent w') ∧
        Sink.Broke (f.sink k) rest w' (Sink.drain (f.sink k) buf w).2 (Sink.drain (f.sink k) buf w).1 := by
  have hstart : Sending f buf w [] [] w :=
    ⟨(List.append_nil _).symm, rfl, Nat.le_refl _, fun before e after he => by simp at he⟩
  exact Sink.drain_rule (fun sent w' => ∃ es, Sending f buf w es sent w')
    (fun hall hrest ⟨_, h⟩ hsink hpos hn => h.round hall hrest hsink hpos hn)
    (List.nil_append buf) ⟨[], hstart⟩

/-- The world after `write_all` is the one after the loop, however it ended. -/
theorem writeAll_world (k : Kernel κ) (f : AkashicFile) (buf : List U8) (w : World κ) :
    (f.writeAll k buf w).2 = (Sink.drain (f.sink k) buf w).2 := by
  unfold AkashicFile.writeAll
  rcases Sink.drain (f.sink k) buf w with ⟨ending, w'⟩
  cases ending <;> rfl

theorem writeAll_contiguous (k : Kernel κ) (f : AkashicFile) (buf : List U8) (w : World κ) :
    ∃ es, (f.writeAll k buf w).2.log = w.log ++ es ∧ Contiguous f.handle buf es := by
  rw [writeAll_world]
  obtain ⟨-, es, h⟩ | ⟨sent, rest, w', hall, hrest, ⟨es, h⟩, hbroke⟩ := drain_cases k f buf w
  · exact ⟨es, h.log_eq, h.contiguous⟩
  · obtain ⟨rax, hlog, -, hcont, -⟩ := h.broke hall hrest hbroke
    exact ⟨_, hlog, hcont⟩

/-- **`write_all` hands over the buffer, each byte once and in order.** For every kernel, every buffer and
    every file: the calls are at most as many as the bytes, each offers exactly what the calls before it left,
    and all that it returns is told by the last of them. `Ok` means that the kernel took the whole buffer; an
    error means that some part at the end is left, and it is the error of the last call, or `-5` where that
    call took nothing; and it panics only on a kernel that counts more bytes than it was offered. -/
theorem writeAll_exact (k : Kernel κ) (f : AkashicFile) (buf : List U8) (w : World κ) :
    ∃ es, (f.writeAll k buf w).2.log = w.log ++ es ∧ es.length ≤ buf.length ∧ Contiguous f.handle buf es ∧
      ((f.writeAll k buf w).1 = .returned (.ok ()) ∧ taken es = buf ∨
        ∃ before rest rax, es = before ++ [⟨.awrite f.handle rest, rax⟩] ∧ taken before ++ rest = buf ∧
          rest ≠ [] ∧
          ((syscallResult rax = .ok 0 ∧ (f.writeAll k buf w).1 = .returned (.error (.io ⟨-5⟩))) ∨
            (∃ e, syscallResult rax = .error e ∧
              (f.writeAll k buf w).1 = .returned (.error (.ofSyscall e))) ∨
            ∃ n, syscallResult rax = .ok n ∧ rest.length < n.toNat ∧ (f.writeAll k buf w).1 = .panicked)) := by
  have hcases := drain_cases k f buf w
  unfold AkashicFile.writeAll
  generalize Sink.drain (f.sink k) buf w = drained at hcases
  obtain ⟨ending, w'⟩ := drained
  rcases hcases with ⟨rfl, es, h⟩ | ⟨sent, rest, w₁, hall, hrest, ⟨es, h⟩, hbroke⟩
  · exact ⟨es, h.log_eq, h.length_le, h.contiguous, .inl ⟨rfl, h.taken_eq⟩⟩
  · obtain ⟨rax, hlog, hlen, hcont, hend⟩ := h.broke hall hrest hbroke
    have hsplit : taken es ++ rest = buf := h.taken_eq ▸ hall
    rcases hend with ⟨rfl, hres⟩ | ⟨e, rfl, hres⟩ | ⟨n, rfl, hres, hn⟩
    · exact ⟨_, hlog, hlen, hcont, .inr ⟨es, rest, rax, rfl, hsplit, hrest, .inl ⟨hres, rfl⟩⟩⟩
    · exact ⟨_, hlog, hlen, hcont, .inr ⟨es, rest, rax, rfl, hsplit, hrest, .inr (.inl ⟨e, hres, rfl⟩)⟩⟩
    · exact ⟨_, hlog, hlen, hcont, .inr ⟨es, rest, rax, rfl, hsplit, hrest, .inr (.inr ⟨n, hres, hn, rfl⟩)⟩⟩

end

end Slope.Fs
