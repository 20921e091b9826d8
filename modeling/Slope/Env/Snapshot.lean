import Mathlib.Algebra.Order.BigOperators.Group.List
import Mathlib.Algebra.Order.Group.Nat
import Slope.Env.Stack

/-!
# `Env.Snapshot` — what the start-up snapshot holds

The snapshot should hold the environment strings with a `=` in them, and nothing that comes from an argument.
The start of the environment block is computed from the argument count *after* that count has been clamped to
`MAX_ARGV`, so with more than `MAX_ARGV` arguments the block that is scanned is the rest of the argument block,
from argument `MAX_ARGV + 1` on. `retainedWords` tells where the entries were read from, and `ArgcHarmless`
says exactly when the snapshot is right all the same.
-/

namespace Slope.Env

open Slope

/-- **The documented stack image**: `[argc][argv_0 ..][0][envp_0 ..][0]`. -/
structure EntryImage (mem : Memory) (base : Nat) (argv env : List CString) : Prop where
  argc : (mem.word base).toNat = argv.length
  argv_block : PointerBlock mem (base + 1) argv
  env_block : PointerBlock mem (base + 1 + argv.length + 1) env

/-- Fuel that suffices for every loop over the image. -/
def stepBound (argv env : List CString) : Nat :=
  argv.length + env.length + ((argv ++ env).map (·.bytes.length)).sum + 1

variable {mem : Memory}

/-! ## Strings -/

/-- With enough fuel, the loop of `cstr_to_bytes` finds the terminator. -/
theorem cstrLen_eq {c : CString} (h : c.Stored mem) {fuel len : Nat} (hlen : len ≤ c.bytes.length)
    (hfuel : c.bytes.length < len + fuel) : cstrLen mem c.ptr.toNat fuel len = some c.bytes.length := by
  induction fuel generalizing len with
  | zero => omega
  | succ fuel ih =>
      rw [cstrLen]
      rcases Nat.lt_or_eq_of_le hlen with hlt | rfl
      · rw [if_pos (h.byte_ne hlt)]
        exact ih hlt (by omega)
      · rw [if_neg (by simp [h.terminated])]

theorem cstrToBytes_eq {c : CString} (h : c.Stored mem) {fuel : Nat} (hfuel : c.bytes.length < fuel) :
    cstrToBytes mem fuel c.ptr.toNat = some c.slice := by
  rw [cstrToBytes, cstrLen_eq h (Nat.zero_le _) (by omega)]
  rfl

/-! ## Scanning a block -/

/-- The visits of a scan, in order. -/
def visitAll {σ : Type} (visit : σ → Nat → ByteSlice → σ) : Nat → List CString → σ → σ
  | _, [], acc => acc
  | w, c :: cs, acc => visitAll visit (w + 1) cs (visit acc w c.slice)

/-- With enough fuel, a scan of a block visits its strings and stops at the null pointer. -/
theorem scan_eq {σ : Type} (visit : σ → Nat → ByteSlice → σ) {env : QuantumEnv} {fuel n i : Nat}
    {cs : List CString} (hb : PointerBlock mem (env.base + i) cs) (hn : cs.length < n)
    (hfuel : ∀ c ∈ cs, c.bytes.length < fuel) (acc : σ) :
    env.scan mem fuel visit n i acc = some (visitAll visit (env.base + i) cs acc) := by
  induction cs generalizing n i acc with
  | nil =>
      obtain ⟨n, rfl⟩ : ∃ k, n = k + 1 := ⟨n - 1, by simp at hn; omega⟩
      have hnull : mem.word (env.base + i) = 0 := hb
      simp [QuantumEnv.scan, hnull, visitAll]
  | cons c cs ih =>
      obtain ⟨n, rfl⟩ : ∃ k, n = k + 1 := ⟨n - 1, by simp at hn; omega⟩
      obtain ⟨hword, hstored, hrest⟩ := hb
      -- the pointer is not null, and its string ends within the fuel
      have hne : mem.word (env.base + i) ≠ 0 := by rw [hword]; exact hstored.ptr_ne
      have hstr := cstrToBytes_eq hstored (hfuel c (List.mem_cons_self ..))
      rw [← hword] at hstr
      rw [QuantumEnv.scan]
      simp only [if_neg hne, hstr]
      exact ih hrest (by simpa using hn) (fun c' hc' => hfuel c' (List.mem_cons_of_mem _ hc')) _

/-- The whole loop over the block that `env` points to. -/
theorem scan_block {σ : Type} (visit : σ → Nat → ByteSlice → σ) {w fuel : Nat} {cs : List CString}
    (hb : PointerBlock mem w cs) (hn : cs.length < fuel) (hfuel : ∀ c ∈ cs, c.bytes.length < fuel) (acc : σ) :
    (QuantumEnv.fromPtr w).scan mem fuel visit fuel 0 acc = some (visitAll visit w cs acc) :=
  @scan_eq mem σ visit ⟨w⟩ fuel fuel 0 cs hb hn hfuel acc

/-! ## The entries of a block -/

namespace EnvSnapshot

/-- The entry that a string contributes. -/
def entryOf (mem : Memory) (entry : ByteSlice) : Option EnvEntry :=
  (separator (entry.bytes mem)).map (entryAt mem entry)

theorem length_live {snap : EnvSnapshot} (h : snap.count ≤ maxEnvVars) : snap.live.length = snap.count := by
  simp [live, h]

theorem count_empty : empty.count ≤ maxEnvVars := Nat.zero_le _

theorem live_empty : empty.live = [] := rfl

/-- Storing appends the entry while there is room. -/
theorem live_store (mem : Memory) {snap : EnvSnapshot} (h : snap.count ≤ maxEnvVars) (entry : ByteSlice) :
    (store mem snap entry).count ≤ maxEnvVars ∧
    (store mem snap entry).live = (snap.live ++ (entryOf mem entry).toList).take maxEnvVars := by
  have hlen := length_live h
  rw [store, entryOf]
  cases hsep : separator (entry.bytes mem) with
  | none =>
      refine ⟨h, ?_⟩
      simp [List.take_of_length_le, hlen, h]
  | some sep =>
      by_cases hroom : snap.count < maxEnvVars
      · simp only [dif_pos hroom, Option.map_some, Option.toList_some]
        refine ⟨hroom, ?_⟩
        rw [List.take_of_length_le (by simp [hlen]; omega), live, live]
        have hcount : snap.count < snap.entries.toList.length := by simpa using hroom
        rw [Vector.toList_set, List.take_add_one, List.getElem?_set_self hcount,
          List.take_set_of_le (Nat.le_refl _)]
        rfl
      · -- a full snapshot drops the entry, as the cut does
        simp only [dif_neg hroom, Option.map_some, Option.toList_some]
        refine ⟨h, ?_⟩
        rw [List.take_append_of_le_length (by omega), List.take_of_length_le (by omega)]

/-- Cutting at the capacity before or after more is appended is the same. -/
theorem take_take_append {α : Type*} (n : Nat) (xs ys : List α) :
    (xs.take n ++ ys).take n = (xs ++ ys).take n := by
  rw [List.take_append, List.take_take, Nat.min_self, List.length_take, List.take_append]
  have hsub : n - min n xs.length = n - xs.length := by omega
  rw [hsub]

/-- **What `collapse` keeps of a block**: the first `MAX_ENV_VARS` entries, in order. -/
theorem live_visitAll (mem : Memory) {snap : EnvSnapshot} (h : snap.count ≤ maxEnvVars) (w : Nat)
    (cs : List CString) :
    (visitAll (fun snap _ entry => store mem snap entry) w cs snap).live
      = (snap.live ++ cs.filterMap (fun c => entryOf mem c.slice)).take maxEnvVars := by
  induction cs generalizing snap w with
  | nil => simp [visitAll, List.take_of_length_le, length_live h, h]
  | cons c cs ih =>
      obtain ⟨hcount, hlive⟩ := live_store mem h c.slice
      rw [visitAll, ih hcount, hlive]
      have hcons : (c :: cs).filterMap (fun c => entryOf mem c.slice)
          = (entryOf mem c.slice).toList ++ cs.filterMap (fun c => entryOf mem c.slice) := by
        cases he : entryOf mem c.slice <;> simp [he]
      rw [hcons, ← List.append_assoc]
      exact take_take_append ..

end EnvSnapshot

/-- What the environment says about one of its strings: the hash of the key before the first `=`, and the
    value after it, up to 65535 bytes. -/
def keyValue (c : CString) : Option (U64 × List U8) :=
  (EnvSnapshot.separator c.bytes).map fun sep =>
    (fnv1aConst (c.bytes.take sep), (c.bytes.drop (sep + 1)).take 0xffff)

/-- What an entry of the snapshot says. -/
def EnvEntry.keyValue (mem : Memory) (e : EnvEntry) : U64 × List U8 := (e.keyHash, e.slice.bytes mem)

/-- The entry of a string says what the string says. -/
theorem entryOf_keyValue {c : CString} (h : c.Stored mem) :
    (EnvSnapshot.entryOf mem c.slice).map (EnvEntry.keyValue mem) = keyValue c := by
  rw [EnvSnapshot.entryOf, keyValue, h.bytes_eq, Option.map_map]
  congr 1
  funext sep
  have hlen : (BitVec.ofNat 16 (min (c.bytes.length - (sep + 1)) 0xffff)).toNat
      = min (c.bytes.length - (sep + 1)) 0xffff := by
    rw [BitVec.toNat_ofNat]
    exact Nat.mod_eq_of_lt (by omega)
  simp only [Function.comp_apply, EnvEntry.keyValue, EnvEntry.slice, EnvSnapshot.entryAt, CString.slice, hlen,
    Prod.mk.injEq]
  refine ⟨by rw [show ByteSlice.bytes ⟨c.ptr.toNat, c.bytes.length⟩ mem = c.bytes from h.bytes_eq], ?_⟩
  rw [ByteSlice.bytes_tail mem c.ptr.toNat c.bytes.length (sep + 1) _ (Nat.min_le_left ..),
    show ByteSlice.bytes ⟨c.ptr.toNat, c.bytes.length⟩ mem = c.bytes from h.bytes_eq]
  rw [List.take_eq_take_iff, List.length_drop]
  omega

theorem filterMap_keyValue {w : Nat} {cs : List CString} (hb : PointerBlock mem w cs) :
    (cs.filterMap (fun c => EnvSnapshot.entryOf mem c.slice)).map (EnvEntry.keyValue mem)
      = cs.filterMap keyValue := by
  rw [List.map_filterMap]
  apply List.filterMap_congr
  intro c hc
  obtain ⟨i, hi, rfl⟩ := List.mem_iff_getElem.mp hc
  exact entryOf_keyValue (hb.get hi).2

theorem keyValue_eq_none {c : CString} : keyValue c = none ↔ equalsSign ∉ c.bytes := by
  simp only [keyValue, EnvSnapshot.separator, Option.map_eq_none_iff, List.findIdx?_eq_none_iff]
  constructor
  · intro h hmem; simpa using h _ hmem
  · intro h b hb
    simp only [beq_eq_false_iff_ne]
    rintro rfl
    exact h hb

theorem filterMap_keyValue_eq_nil {cs : List CString} :
    cs.filterMap keyValue = [] ↔ ∀ c ∈ cs, equalsSign ∉ c.bytes := by
  rw [List.filterMap_eq_nil_iff]
  exact forall₂_congr fun c _ => keyValue_eq_none

/-! ## Where the entries come from -/

/-- The words whose strings `collapse` stores, in order: the same loop, noting where it reads. -/
def retainedWords (mem : Memory) (fuel : Nat) (env : QuantumEnv) : Option (List Nat) :=
  env.scan mem fuel (retain mem) fuel 0 []
where
  retain (mem : Memory) (ws : List Nat) (w : Nat) (entry : ByteSlice) : List Nat :=
    if (EnvSnapshot.separator (entry.bytes mem)).isSome ∧ ws.length < maxEnvVars then ws ++ [w] else ws

/-- The retained words of a block lie in the block, and there are none exactly when no string has a `=`. -/
theorem visitAll_retain {w : Nat} {cs : List CString} (hb : PointerBlock mem w cs) (ws : List Nat) :
    (∀ v ∈ visitAll (retainedWords.retain mem) w cs ws, v ∈ ws ∨ (w ≤ v ∧ v < w + cs.length)) ∧
    (visitAll (retainedWords.retain mem) w cs ws = [] ↔ ws = [] ∧ ∀ c ∈ cs, equalsSign ∉ c.bytes) := by
  induction cs generalizing w ws with
  | nil => exact ⟨fun v hv => Or.inl hv, by simp [visitAll]⟩
  | cons c cs ih =>
      obtain ⟨-, hstored, hrest⟩ := hb
      obtain ⟨hin, hnil⟩ := ih hrest (retainedWords.retain mem ws w c.slice)
      have hsep : (EnvSnapshot.separator (c.slice.bytes mem)).isSome = true ↔ equalsSign ∈ c.bytes := by
        rw [hstored.bytes_eq, ← not_iff_not, ← keyValue_eq_none, keyValue, Option.map_eq_none_iff]
        simp
      rw [visitAll]
      refine ⟨?_, ?_⟩
      · intro v hv
        rcases hin v hv with hv | ⟨hlo, hhi⟩
        · rw [retainedWords.retain] at hv
          split at hv
          · rcases List.mem_append.mp hv with hv | hv
            · exact Or.inl hv
            · rw [List.mem_singleton] at hv
              subst hv
              exact Or.inr ⟨Nat.le_refl _, by simp⟩
          · exact Or.inl hv
        · exact Or.inr ⟨by omega, by simp only [List.length_cons]; omega⟩
      · rw [hnil, retainedWords.retain, List.forall_mem_cons]
        by_cases hmem : equalsSign ∈ c.bytes
        · -- the word of this string is retained, unless the list is full already
          split
          · simp [hmem]
          · next hfull =>
            have hlen : ¬ ws.length < maxEnvVars := fun hlt => hfull ⟨hsep.mpr hmem, hlt⟩
            have hne : ws ≠ [] := by rintro rfl; exact hlen (by decide)
            simp [hmem, hne]
        · rw [if_neg (fun hc => hmem (hsep.mp hc.1))]
          simp [hmem]

/-! ## The snapshot of a stack image -/

section

variable {base fuel : Nat} {argv env : List CString}

/-- **The property**: the snapshot says exactly what the first `MAX_ENV_VARS` environment strings with a `=`
    say, in order; none of its entries was read from the argument block; and every argument up to `MAX_ARGV`
    can be observed. -/
structure ExactEnvironment (mem : Memory) (base fuel : Nat) (argv env : List CString) (snap : EnvSnapshot)
    (ws : List Nat) : Prop where
  entries : snap.live.map (EnvEntry.keyValue mem) = (env.filterMap keyValue).take maxEnvVars
  no_argv : ∀ w ∈ ws, ¬ (base + 1 ≤ w ∧ w < base + 1 + argv.length)
  arguments : ∀ i (hi : i < argv.length), i < maxArgv →
    ∃ s, (QuantumArgv.fromStack mem base).get mem fuel i = some (some s) ∧ s.bytes mem = argv[i].bytes

/-- The arguments and environment fit, or neither the arguments from `MAX_ARGV + 1` on nor the environment
    have anything to say. -/
def ArgcHarmless (argv env : List CString) : Prop :=
  argv.length ≤ maxArgv ∨
    ((∀ c ∈ argv.drop (maxArgv + 1), equalsSign ∉ c.bytes) ∧ ∀ c ∈ env, equalsSign ∉ c.bytes)

theorem length_lt_of_stepBound (hfuel : stepBound argv env ≤ fuel) {c : CString} (hc : c ∈ argv ++ env) :
    c.bytes.length < fuel := by
  have hmem : c.bytes.length ∈ (argv ++ env).map (·.bytes.length) := List.mem_map.mpr ⟨c, hc, rfl⟩
  have := List.le_sum_of_mem hmem
  rw [stepBound] at hfuel
  omega

/-- The block that `envp_base` points to. -/
theorem scanned_block (himg : EntryImage mem base argv env) :
    PointerBlock mem (QuantumArgv.fromStack mem base).envpBase
      (if argv.length ≤ maxArgv then env else argv.drop (maxArgv + 1)) := by
  rw [QuantumArgv.envpBase, QuantumArgv.fromStack, himg.argc]
  by_cases hle : argv.length ≤ maxArgv
  · have hargc : (if argv.length < maxArgv then argv.length else maxArgv) = argv.length := by
      split <;> omega
    rw [if_pos hle]
    simp only [hargc]
    have hblock := himg.env_block
    rwa [show base + 1 + argv.length + 1 = base + (1 + argv.length + 1) by omega] at hblock
  · -- the count is clamped, so the base falls inside the argument block
    rw [if_neg hle]
    simp only [if_neg (show ¬ argv.length < maxArgv by omega)]
    have hblock := himg.argv_block.drop (maxArgv + 1) (by omega)
    rwa [show base + 1 + (maxArgv + 1) = base + (1 + maxArgv + 1) by omega] at hblock

/-- Every argument below the clamped count is observed. -/
theorem get_argument (himg : EntryImage mem base argv env) (hfuel : stepBound argv env ≤ fuel) {i : Nat}
    (hi : i < argv.length) (hmax : i < maxArgv) :
    ∃ s, (QuantumArgv.fromStack mem base).get mem fuel i = some (some s) ∧ s.bytes mem = argv[i].bytes := by
  obtain ⟨hword, hstored⟩ := himg.argv_block.get hi
  rw [show base + 1 + i = base + (1 + i) by omega] at hword
  have hlen := length_lt_of_stepBound hfuel (List.mem_append_left env (List.getElem_mem hi))
  have hstr := cstrToBytes_eq hstored hlen
  refine ⟨argv[i].slice, ?_, hstored.bytes_eq⟩
  have hargc : ¬ (QuantumArgv.fromStack mem base).argc ≤ i := by
    simp only [QuantumArgv.fromStack, himg.argc]
    split <;> omega
  have hne : mem.word (base + (1 + i)) ≠ 0 := by rw [hword]; exact hstored.ptr_ne
  rw [← hword] at hstr
  rw [QuantumArgv.get, if_neg hargc]
  simp only [QuantumArgv.fromStack, if_neg hne, hstr, Option.map_some]

/-- `collapse` over a block says what the block says. -/
theorem collapse_block {w : Nat} {cs : List CString} (hb : PointerBlock mem w cs) (hn : cs.length < fuel)
    (hlen : ∀ c ∈ cs, c.bytes.length < fuel) :
    ∃ snap, EnvSnapshot.collapse mem fuel (.fromPtr w) = some snap ∧
      snap.live.map (EnvEntry.keyValue mem) = (cs.filterMap keyValue).take maxEnvVars := by
  refine ⟨_, scan_block _ hb hn hlen EnvSnapshot.empty, ?_⟩
  rw [EnvSnapshot.live_visitAll mem EnvSnapshot.count_empty, List.map_take, EnvSnapshot.live_empty,
    List.nil_append, filterMap_keyValue hb]

theorem retained_block {w : Nat} {cs : List CString} (hb : PointerBlock mem w cs) (hn : cs.length < fuel)
    (hlen : ∀ c ∈ cs, c.bytes.length < fuel) :
    ∃ ws, retainedWords mem fuel (.fromPtr w) = some ws ∧ (∀ v ∈ ws, w ≤ v ∧ v < w + cs.length) ∧
      (ws = [] ↔ ∀ c ∈ cs, equalsSign ∉ c.bytes) := by
  obtain ⟨hin, hnil⟩ := visitAll_retain hb []
  refine ⟨_, scan_block _ hb hn hlen [], ?_, ?_⟩
  · intro v hv
    simpa using hin v hv
  · simpa using hnil

/-- When the snapshot of the scanned block is the environment. -/
theorem exactEnvironment_iff (himg : EntryImage mem base argv env) (hfuel : stepBound argv env ≤ fuel)
    {cs : List CString} (hcs : cs = if argv.length ≤ maxArgv then env else argv.drop (maxArgv + 1))
    {snap : EnvSnapshot} {ws : List Nat}
    (hpairs : snap.live.map (EnvEntry.keyValue mem) = (cs.filterMap keyValue).take maxEnvVars)
    (hin : ∀ v ∈ ws, (QuantumArgv.fromStack mem base).envpBase ≤ v ∧
      v < (QuantumArgv.fromStack mem base).envpBase + cs.length)
    (hnil : ws = [] ↔ ∀ c ∈ cs, equalsSign ∉ c.bytes) :
    ExactEnvironment mem base fuel argv env snap ws ↔ ArgcHarmless argv env := by
  have hargs := fun i (hi : i < argv.length) hmax => get_argument himg hfuel hi hmax
  have hbase : (QuantumArgv.fromStack mem base).envpBase
      = base + (1 + (if argv.length < maxArgv then argv.length else maxArgv) + 1) := by
    rw [QuantumArgv.envpBase, QuantumArgv.fromStack, himg.argc]
  rw [hbase] at hin
  by_cases hle : argv.length ≤ maxArgv
  · -- the environment block itself is scanned, and it lies behind the argument block
    rw [if_pos hle] at hcs
    subst hcs
    refine ⟨fun _ => Or.inl hle, fun _ => ⟨hpairs, ?_, hargs⟩⟩
    rintro v hv ⟨-, hv'⟩
    have := (hin v hv).1
    split at this <;> omega
  · -- the end of the argument block is scanned
    rw [if_neg hle] at hcs
    rw [if_neg (by omega)] at hin
    subst hcs
    constructor
    · intro h
      have hws : ws = [] := by
        rw [List.eq_nil_iff_forall_not_mem]
        intro v hv
        have hv' := hin v hv
        rw [List.length_drop] at hv'
        exact h.no_argv v hv ⟨by omega, by omega⟩
      have hargv := hnil.mp hws
      refine Or.inr ⟨hargv, ?_⟩
      rw [← filterMap_keyValue_eq_nil]
      have hentries := h.entries
      rw [hpairs, filterMap_keyValue_eq_nil.mpr hargv, List.take_nil, eq_comm,
        List.take_eq_nil_iff] at hentries
      exact hentries.resolve_left (by decide)
    · rintro (hc | ⟨hargv, henv⟩)
      · exact absurd hc hle
      · refine ⟨?_, ?_, hargs⟩
        · rw [hpairs, filterMap_keyValue_eq_nil.mpr hargv, filterMap_keyValue_eq_nil.mpr henv]
        · rw [hnil.mpr hargv]
          intro v hv
          cases hv

/-- **The environment, exactly.** For every stack image of the documented form and every outcome of the boot
    negotiation, initialisation returns (with fuel for one pass over the image), and its snapshot is exactly
    the environment if and only if there are at most `MAX_ARGV` arguments, or neither the arguments from
    `MAX_ARGV + 1` on nor the environment hold a string with a `=`. -/
theorem environment_exact_iff (api : KairosApi) (himg : EntryImage mem base argv env)
    (hfuel : stepBound argv env ≤ fuel) (required optional : U64) (workload : api.Workload) (units : Nat) :
    ∃ snap ws,
      ProcessRuntime.initializeAt api mem fuel base required optional workload units
        = some ((api.run required optional).map fun kairos =>
            { argv := QuantumArgv.fromStack mem base, environment := snap, kairos
              affinity := api.computeAffinity kairos workload
              partition := api.partitionWork kairos units }) ∧
      retainedWords mem fuel (.fromPtr (QuantumArgv.fromStack mem base).envpBase) = some ws ∧
      (ExactEnvironment mem base fuel argv env snap ws ↔ ArgcHarmless argv env) := by
  have hblock := scanned_block himg
  generalize hcs : (if argv.length ≤ maxArgv then env else argv.drop (maxArgv + 1)) = cs at hblock
  -- fuel for the block that is scanned
  have hsub : cs.length < fuel ∧ ∀ c ∈ cs, c ∈ argv ++ env := by
    rw [stepBound] at hfuel
    rw [← hcs]
    split
    · exact ⟨by omega, fun c hc => List.mem_append_right _ hc⟩
    · exact ⟨by rw [List.length_drop]; omega,
        fun c hc => List.mem_append_left _ (List.mem_of_mem_drop hc)⟩
  have hlen : ∀ c ∈ cs, c.bytes.length < fuel := fun c hc => length_lt_of_stepBound hfuel (hsub.2 c hc)
  obtain ⟨snap, hsnap, hpairs⟩ := collapse_block hblock hsub.1 hlen
  obtain ⟨ws, hws, hin, hnil⟩ := retained_block hblock hsub.1 hlen
  refine ⟨snap, ws, ?_, hws, exactEnvironment_iff himg hfuel hcs.symm hpairs hin hnil⟩
  simp only [ProcessRuntime.initializeAt, hsnap]
  rfl

end

/-- A kernel that negotiates nothing. -/
def sampleApi : KairosApi where
  BootError := Empty
  Init := Unit
  Workload := Unit
  Affinity := Unit
  Partition := Unit
  run := fun _ _ => .ok ()
  computeAffinity := fun _ _ => ()
  partitionWork := fun _ _ => ()

/-! ### A process with an argument and an environment -/

/-- `A=B`, `AB=C`, `AB=D` and `X`: the bytes of a memory that are not zero. -/
def variableBytes : List (Nat × U8) :=
  [(8192, 0x41), (8193, 0x3d), (8194, 0x42), (8200, 0x41), (8201, 0x42), (8202, 0x3d), (8203, 0x43), (8208, 0x41),
    (8209, 0x42), (8210, 0x3d), (8211, 0x44), (8216, 0x58)]

def shortKey : CString := ⟨8192, [0x41, 0x3d, 0x42]⟩

def longKey : CString := ⟨8200, [0x41, 0x42, 0x3d, 0x43]⟩

def repeatedKey : CString := ⟨8208, [0x41, 0x42, 0x3d, 0x44]⟩

def bareWord : CString := ⟨8216, [0x58]⟩

/-- A memory with these bytes and the given words from address 0 on. -/
def variablesMemory (words : List U64) : Memory where
  word := fun w => (words[w]?).getD 0
  byte := fun a => (variableBytes.lookup a).getD 0

section

variable (words : List U64)

theorem shortKey_stored : shortKey.Stored (variablesMemory words) := ⟨by decide, rfl, by decide, rfl⟩

theorem longKey_stored : longKey.Stored (variablesMemory words) := ⟨by decide, rfl, by decide, rfl⟩

theorem repeatedKey_stored : repeatedKey.Stored (variablesMemory words) := ⟨by decide, rfl, by decide, rfl⟩

theorem bareWord_stored : bareWord.Stored (variablesMemory words) := ⟨by decide, rfl, by decide, rfl⟩

end

/-- One argument, `X`, and the environment `A=B`, `X`, `AB=C`, `AB=D`. -/
def launchWords : List U64 := [1, 8216, 0, 8192, 8216, 8200, 8208]

theorem launch_block :
    PointerBlock (variablesMemory launchWords) 3 [shortKey, bareWord, longKey, repeatedKey] :=
  ⟨rfl, shortKey_stored _, rfl, bareWord_stored _, rfl, longKey_stored _, rfl, repeatedKey_stored _, rfl⟩

theorem launch_image :
    EntryImage (variablesMemory launchWords) 0 [bareWord] [shortKey, bareWord, longKey, repeatedKey] :=
  ⟨rfl, ⟨rfl, bareWord_stored _, rfl⟩, launch_block⟩

/-- The snapshot holds the three strings with a `=`, in order. -/
theorem environment_exact_sample :
    ∃ snap ws, retainedWords (variablesMemory launchWords) 20 (.fromPtr 3) = some ws ∧
      ExactEnvironment (variablesMemory launchWords) 0 20 [bareWord] [shortKey, bareWord, longKey, repeatedKey]
        snap ws ∧
      snap.live.map (EnvEntry.keyValue (variablesMemory launchWords))
        = [(fnv1aConst [0x41], [0x42]), (fnv1aConst [0x41, 0x42], [0x43]), (fnv1aConst [0x41, 0x42], [0x44])] := by
  obtain ⟨snap, ws, -, hws, hiff⟩ :=
    environment_exact_iff sampleApi launch_image (show _ ≤ 20 by decide) 0 0 () 0
  have hexact := hiff.mpr (Or.inl (by decide))
  exact ⟨snap, ws, hws, hexact, hexact.entries.trans (by decide)⟩

/-! ### Sixty-six arguments -/

/-- `A=B`, at address 4096. -/
def sampleString : CString := ⟨4096, [0x41, 0x3d, 0x42]⟩

/-- A stack at word 0 with `argc` arguments, all of them `A=B`, and no environment. -/
def sampleMemory (argc : Nat) : Memory where
  word := fun w => if w = 0 then BitVec.ofNat 64 argc else if w ≤ argc then 4096 else 0
  byte := fun a => if a = 4096 then 0x41 else if a = 4097 then 0x3d else if a = 4098 then 0x42 else 0

theorem sampleString_stored (argc : Nat) : sampleString.Stored (sampleMemory argc) :=
  ⟨by decide, rfl, by decide, rfl⟩

theorem sample_block (argc : Nat) : ∀ n w, 0 < w → w + n = argc + 1 →
    PointerBlock (sampleMemory argc) w (List.replicate n sampleString)
  | 0, w, hw, hn => by
      show (sampleMemory argc).word w = 0
      simp only [sampleMemory]
      rw [if_neg (by omega), if_neg (by omega)]
  | n + 1, w, hw, hn => by
      refine ⟨?_, sampleString_stored argc, sample_block argc n (w + 1) (by omega) (by omega)⟩
      show (if w = 0 then _ else if w ≤ argc then (4096 : U64) else 0) = 4096
      rw [if_neg (by omega), if_pos (by omega)]

theorem sample_image (argc : Nat) (h : argc < 2 ^ 64) :
    EntryImage (sampleMemory argc) 0 (List.replicate argc sampleString) [] := by
  refine ⟨?_, ?_, ?_⟩
  · simpa [sampleMemory] using h
  · exact sample_block argc argc 1 (by decide) (by omega)
  · show (sampleMemory argc).word _ = 0
    simp only [sampleMemory, List.length_replicate]
    rw [if_neg (by omega), if_neg (by omega)]

/-- **An argument becomes part of the environment.** With 66 arguments and no environment at all, the snapshot
    holds the entry of argument 65. -/
theorem argument_in_environment :
    EntryImage (sampleMemory 66) 0 (List.replicate 66 sampleString) [] ∧
    ∃ snap, ProcessRuntime.initializeAt sampleApi (sampleMemory 66) 300 0 0 0 () 0
        = some (.ok { argv := ⟨0, 64⟩, environment := snap, kairos := (), affinity := (), partition := () }) ∧
      snap.live.map (EnvEntry.keyValue (sampleMemory 66)) = [(fnv1aConst [0x41], [0x42])] ∧
      ∀ ws, ¬ ExactEnvironment (sampleMemory 66) 0 300 (List.replicate 66 sampleString) [] snap ws := by
  have hb : PointerBlock (sampleMemory 66) 66 [sampleString] := sample_block 66 1 66 (by decide) (by decide)
  have hn : [sampleString].length < 300 := by decide
  obtain ⟨snap, hsnap, hpairs⟩ := collapse_block hb hn (by decide)
  have hlive : snap.live.map (EnvEntry.keyValue (sampleMemory 66)) = [(fnv1aConst [0x41], [0x42])] :=
    hpairs.trans (by decide)
  refine ⟨sample_image 66 (by decide), snap, ?_, hlive, ?_⟩
  · have hargv : QuantumArgv.fromStack (sampleMemory 66) 0 = ⟨0, 64⟩ := by decide
    have hview : (⟨0, 64⟩ : QuantumArgv).envpBase = 66 := rfl
    simp only [ProcessRuntime.initializeAt, hargv, hview, hsnap]
    rfl
  · intro ws h
    have hentries := h.entries
    rw [hlive] at hentries
    cases hentries

end Slope.Env
