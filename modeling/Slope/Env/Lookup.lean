import Slope.Env.Snapshot

/-!
# `Env.Lookup` — the three lookups

`QuantumEnv::get` scans the envp block for a key by its bytes, `get_phase` for a key by its hash, and
`EnvSnapshot::get` looks the hash up in the collapsed table. The first two share a loop that may leave early;
over a block it is `firstReturn` of its body (`search_block`).

Two things separate the scans from what they are for. `get` asks for strictly more than the key and the `=`,
so a variable that is set to the empty string is passed over. And the `?` in `get_phase` ends the whole lookup
at an entry without `=`, where `collapse` only skips the entry.
-/

namespace Slope.Env

open Slope

structure PhaseKey where
  hash : U64
deriving DecidableEq

def PhaseKey.fromBytes (bytes : List U8) : PhaseKey := ⟨fnv1aConst bytes⟩

/-! ## The lookups -/

namespace QuantumEnv

/-- The loop of the two scans. The body goes on with `none` and returns `r` with `some r`. -/
def search (env : QuantumEnv) (mem : Memory) (fuel : Nat) (visit : ByteSlice → Option (Option ByteSlice)) :
    Nat → Nat → Option (Option ByteSlice)
  | 0, _ => none
  | n + 1, i =>
    let ptr := mem.word (env.base + i)
    if ptr = 0 then some none
    else
      match cstrToBytes mem fuel ptr.toNat with
      | none => none
      | some entry =>
        match visit entry with
        | some r => some r
        | none => env.search mem fuel visit n (i + 1)

/-- `&entry[n..]` -/
def tailFrom (entry : ByteSlice) (n : Nat) : ByteSlice := ⟨entry.ptr + n, entry.len - n⟩

/-- The body of `get`'s loop. The length is compared first, so neither the slice nor the index can be out of
    range. -/
def visitKey (mem : Memory) (key : List U8) (entry : ByteSlice) : Option (Option ByteSlice) :=
  -- more than the key and the `=`, so an entry with nothing after the `=` is passed over
  if key.length + 1 < entry.len ∧ (entry.bytes mem).take key.length = key
      ∧ mem.byte (entry.ptr + key.length) = equalsSign then
    some (some (tailFrom entry (key.length + 1)))
  else none

/-- The body of `get_phase`'s loop. -/
def visitPhase (mem : Memory) (key : PhaseKey) (entry : ByteSlice) : Option (Option ByteSlice) :=
  match EnvSnapshot.separator (entry.bytes mem) with
  -- `position(..)?` leaves the function, not the iteration
  | none => some none
  | some sep =>
    if fnv1aConst ((entry.bytes mem).take sep) = key.hash then some (some (tailFrom entry (sep + 1))) else none

def get (env : QuantumEnv) (mem : Memory) (fuel : Nat) (key : List U8) : Option (Option ByteSlice) :=
  env.search mem fuel (visitKey mem key) fuel 0

def getPhase (env : QuantumEnv) (mem : Memory) (fuel : Nat) (key : PhaseKey) : Option (Option ByteSlice) :=
  env.search mem fuel (visitPhase mem key) fuel 0

end QuantumEnv

def EnvSnapshot.get (snap : EnvSnapshot) (key : PhaseKey) : Option ByteSlice :=
  (snap.live.find? (·.keyHash == key.hash)).map EnvEntry.slice

/-! ## The loop over a block -/

section

variable {mem : Memory}

/-- What the first entry whose visit returns makes the loop return. -/
def firstReturn (visit : ByteSlice → Option (Option ByteSlice)) : List CString → Option ByteSlice
  | [] => none
  | c :: cs => (visit c.slice).getD (firstReturn visit cs)

/-- With enough fuel, the loop over a block returns. -/
theorem search_eq (visit : ByteSlice → Option (Option ByteSlice)) {env : QuantumEnv} {fuel n i : Nat}
    {cs : List CString} (hb : PointerBlock mem (env.base + i) cs) (hn : cs.length < n)
    (hfuel : ∀ c ∈ cs, c.bytes.length < fuel) :
    env.search mem fuel visit n i = some (firstReturn visit cs) := by
  induction cs generalizing n i with
  | nil =>
      obtain ⟨n, rfl⟩ : ∃ k, n = k + 1 := ⟨n - 1, by simp at hn; omega⟩
      have hnull : mem.word (env.base + i) = 0 := hb
      simp [QuantumEnv.search, hnull, firstReturn]
  | cons c cs ih =>
      obtain ⟨n, rfl⟩ : ∃ k, n = k + 1 := ⟨n - 1, by simp at hn; omega⟩
      obtain ⟨hword, hstored, hrest⟩ := hb
      have hne : mem.word (env.base + i) ≠ 0 := by rw [hword]; exact hstored.ptr_ne
      have hstr := cstrToBytes_eq hstored (hfuel c (List.mem_cons_self ..))
      rw [← hword] at hstr
      rw [QuantumEnv.search, firstReturn]
      simp only [if_neg hne, hstr]
      cases visit c.slice with
      | some r => rfl
      | none => exact ih hrest (by simpa using hn) (fun c' hc' => hfuel c' (List.mem_cons_of_mem _ hc'))

theorem search_block (visit : ByteSlice → Option (Option ByteSlice)) {w fuel : Nat} {cs : List CString}
    (hb : PointerBlock mem w cs) (hn : cs.length < fuel) (hfuel : ∀ c ∈ cs, c.bytes.length < fuel) :
    (QuantumEnv.fromPtr w).search mem fuel visit fuel 0 = some (firstReturn visit cs) :=
  @search_eq mem visit ⟨w⟩ fuel fuel 0 cs hb hn hfuel

/-- A tail of a stored string is the string's tail. -/
theorem bytes_tailFrom {c : CString} (h : c.Stored mem) (n : Nat) :
    (QuantumEnv.tailFrom c.slice n).bytes mem = c.bytes.drop n := by
  have htail := ByteSlice.bytes_tail mem c.ptr.toNat c.bytes.length n (c.bytes.length - n) (Nat.le_refl _)
  rw [show ByteSlice.bytes ⟨c.ptr.toNat, c.bytes.length⟩ mem = c.bytes from h.bytes_eq] at htail
  rw [QuantumEnv.tailFrom, CString.slice, htail, List.take_of_length_le (by rw [List.length_drop])]

/-! ## Keys and values -/

/-- The bytes before the first `=`. -/
def entryKey (c : CString) : Option (List U8) := (EnvSnapshot.separator c.bytes).map fun sep => c.bytes.take sep

/-- The bytes after the first `=`. -/
def entryValue (c : CString) : Option (List U8) :=
  (EnvSnapshot.separator c.bytes).map fun sep => c.bytes.drop (sep + 1)

/-- An entry is its key, the first `=` and its value. -/
theorem bytes_of_separator {bytes : List U8} {sep : Nat} (h : EnvSnapshot.separator bytes = some sep) :
    bytes = bytes.take sep ++ equalsSign :: bytes.drop (sep + 1) ∧ (bytes.take sep).length = sep := by
  obtain ⟨hlt, heq, -⟩ := List.findIdx?_eq_some_iff_getElem.mp h
  have hget : bytes[sep] = equalsSign := by simpa using heq
  refine ⟨?_, by rw [List.length_take]; omega⟩
  rw [← hget, ← List.drop_eq_getElem_cons hlt, List.take_append_drop]

/-- The `=` after a key that holds none is the first one. -/
theorem separator_append {key : List U8} (hkey : equalsSign ∉ key) (value : List U8) :
    EnvSnapshot.separator (key ++ equalsSign :: value) = some key.length := by
  have hnone : key.findIdx? (· == equalsSign) = none := by
    rw [List.findIdx?_eq_none_iff]
    intro b hb
    simp only [beq_eq_false_iff_ne]
    rintro rfl
    exact hkey hb
  rw [EnvSnapshot.separator, List.findIdx?_append, hnone, List.findIdx?_cons]
  simp

theorem entryKey_and_value {c : CString} {key value : List U8} (hkey : equalsSign ∉ key) :
    entryKey c = some key ∧ entryValue c = some value ↔ c.bytes = key ++ equalsSign :: value := by
  constructor
  · rintro ⟨hk, hv⟩
    obtain ⟨sep, hsep, rfl⟩ := Option.map_eq_some_iff.mp hk
    rw [entryValue, hsep] at hv
    obtain rfl : c.bytes.drop (sep + 1) = value := by simpa using hv
    exact (bytes_of_separator hsep).1
  · intro h
    have hsep : EnvSnapshot.separator c.bytes = some key.length := by rw [h]; exact separator_append hkey value
    rw [entryKey, entryValue, hsep, h]
    simp

theorem entryValue_of_key {c : CString} {key : List U8} (h : entryKey c = some key) :
    ∃ value, entryValue c = some value := by
  obtain ⟨sep, hsep, -⟩ := Option.map_eq_some_iff.mp h
  exact ⟨_, by rw [entryValue, hsep]; rfl⟩

/-! ## Lookup by bytes -/

/-- `key` is the key of the entry, and its value is not empty. -/
def Visible (key : List U8) (c : CString) : Prop := entryKey c = some key ∧ entryValue c ≠ some []

instance (key : List U8) (c : CString) : Decidable (Visible key c) := by
  unfold Visible
  infer_instance

/-- The body of `get`'s loop stops at the entries that are visible under the key. -/
theorem visitKey_eq {c : CString} (h : c.Stored mem) {key : List U8} (hkey : equalsSign ∉ key) :
    QuantumEnv.visitKey mem key c.slice
      = if Visible key c then some (some (QuantumEnv.tailFrom c.slice (key.length + 1))) else none := by
  have hbyte : ∀ i, i < c.bytes.length → c.bytes[i]? = some (mem.byte (c.ptr.toNat + i)) := by
    intro i hi
    rw [← h.bytes_eq]
    simp [ByteSlice.bytes, CString.slice, hi]
  rw [QuantumEnv.visitKey]
  refine if_congr ?_ rfl rfl
  rw [show c.slice.bytes mem = c.bytes from h.bytes_eq]
  show key.length + 1 < c.bytes.length ∧ _ ∧ mem.byte (c.ptr.toNat + key.length) = equalsSign ↔ _
  constructor
  · rintro ⟨hlen, htake, heq⟩
    have hget := hbyte key.length (by omega)
    rw [heq, List.getElem?_eq_some_iff] at hget
    obtain ⟨hlt, hget⟩ := hget
    have hsplit : c.bytes = key ++ equalsSign :: c.bytes.drop (key.length + 1) := by
      rw [← hget, ← List.drop_eq_getElem_cons hlt]
      conv_lhs => rw [← List.take_append_drop key.length c.bytes, htake]
    obtain ⟨hk, hv⟩ := (entryKey_and_value hkey).mpr hsplit
    refine ⟨hk, ?_⟩
    rw [hv]
    intro hnil
    have hzero := congrArg List.length (Option.some.inj hnil)
    rw [List.length_drop, List.length_nil] at hzero
    omega
  · rintro ⟨hk, hv⟩
    obtain ⟨value, hvalue⟩ := entryValue_of_key hk
    have hsplit := (entryKey_and_value hkey).mp ⟨hk, hvalue⟩
    have hpos : 0 < value.length := by
      rw [hvalue] at hv
      exact List.length_pos_iff.mpr fun hnil => hv (by rw [hnil])
    have hlen : key.length + 1 < c.bytes.length := by
      rw [hsplit, List.length_append, List.length_cons]
      omega
    refine ⟨hlen, by rw [hsplit]; simp, ?_⟩
    have hget := hbyte key.length (by omega)
    rw [hsplit] at hget
    simpa using hget.symm

/-- `get` returns the value of the first entry visible under the key. -/
theorem firstReturn_visitKey {w : Nat} {cs : List CString} (hb : PointerBlock mem w cs) {key : List U8}
    (hkey : equalsSign ∉ key) :
    (firstReturn (QuantumEnv.visitKey mem key) cs).map (ByteSlice.bytes · mem)
      = (cs.find? fun c => Visible key c).bind entryValue := by
  induction cs generalizing w with
  | nil => rfl
  | cons c cs ih =>
      obtain ⟨-, hstored, hrest⟩ := hb
      rw [firstReturn, visitKey_eq hstored hkey]
      by_cases hvis : Visible key c
      · obtain ⟨value, hvalue⟩ := entryValue_of_key hvis.1
        have hsplit := (entryKey_and_value hkey).mp ⟨hvis.1, hvalue⟩
        have hdrop : c.bytes.drop (key.length + 1) = value := by rw [hsplit]; simp
        rw [if_pos hvis, List.find?_cons_of_pos (by simpa using hvis)]
        simp only [Option.getD_some, Option.map_some, Option.bind_some, bytes_tailFrom hstored, hdrop, hvalue]
      · rw [if_neg hvis, List.find?_cons_of_neg (by simpa using hvis)]
        exact ih hrest

/-- **What `get` is for**: the value of the first entry with the key, empty or not, and nothing exactly when no
    entry has the key. -/
structure LooksUp (cs : List CString) (key : List U8) (result : Option (List U8)) : Prop where
  first : ∀ before c after, cs = before ++ c :: after → entryKey c = some key →
    (∀ d ∈ before, entryKey d ≠ some key) → result = entryValue c
  absent : result = none ↔ ∀ c ∈ cs, entryKey c ≠ some key

/-- The first entry with the key, if there is one, has a value that is not empty. -/
def FirstValueNonempty (cs : List CString) (key : List U8) : Prop :=
  ∀ before c after, cs = before ++ c :: after → entryKey c = some key →
    (∀ d ∈ before, entryKey d ≠ some key) → entryValue c ≠ some []

/-- A key that occurs has a first occurrence. -/
theorem exists_first {cs : List CString} {key : List U8} {c : CString} (hc : c ∈ cs) (hk : entryKey c = some key) :
    ∃ before d after, cs = before ++ d :: after ∧ entryKey d = some key ∧ ∀ e ∈ before, entryKey e ≠ some key := by
  have hsome : (cs.find? fun d => entryKey d = some key).isSome := by
    rw [List.find?_isSome]
    exact ⟨c, hc, by simpa using hk⟩
  obtain ⟨d, hd⟩ := Option.isSome_iff_exists.mp hsome
  obtain ⟨hkd, before, after, hcs, hbefore⟩ := List.find?_eq_some_iff_append.mp hd
  exact ⟨before, d, after, hcs, by simpa using hkd, fun e he => by simpa using hbefore e he⟩

/-- Passing over empty values is harmless exactly when the first entry with the key has none. -/
theorem looksUp_find_iff (cs : List CString) (key : List U8) :
    LooksUp cs key ((cs.find? fun c => Visible key c).bind entryValue) ↔ FirstValueNonempty cs key := by
  constructor
  · intro h before c after hcs hk hbefore hempty
    have hresult := h.first before c after hcs hk hbefore
    rw [hempty] at hresult
    obtain ⟨d, hd, hvalue⟩ := Option.bind_eq_some_iff.mp hresult
    have hvis := List.find?_some hd
    simp only [decide_eq_true_eq] at hvis
    exact hvis.2 hvalue
  · intro h
    have hfirst : ∀ before c after, cs = before ++ c :: after → entryKey c = some key →
        (∀ d ∈ before, entryKey d ≠ some key) →
        (cs.find? fun c => Visible key c).bind entryValue = entryValue c := by
      intro before c after hcs hk hbefore
      have hvis : Visible key c := ⟨hk, h before c after hcs hk hbefore⟩
      have hfind : (cs.find? fun c => Visible key c) = some c := by
        rw [List.find?_eq_some_iff_append]
        refine ⟨by simpa using hvis, before, after, hcs, ?_⟩
        intro d hd
        simpa using fun hvd : Visible key d => hbefore d hd hvd.1
      rw [hfind]
      rfl
    refine ⟨hfirst, ?_⟩
    constructor
    · intro hnone c hc hk
      obtain ⟨before, d, after, hcs, hkd, hbefore⟩ := exists_first hc hk
      obtain ⟨value, hvalue⟩ := entryValue_of_key hkd
      rw [hfirst before d after hcs hkd hbefore, hvalue] at hnone
      cases hnone
    · intro habsent
      have hfind : (cs.find? fun c => Visible key c) = none := by
        rw [List.find?_eq_none]
        intro c hc
        simpa using fun hvis : Visible key c => habsent c hc hvis.1
      rw [hfind]
      rfl

/-- **Lookup by key, exactly.** For every envp block and every key without `=`, `get` returns (with fuel for
    one pass over the block), and it returns what it is for if and only if the first entry with the key, if
    there is one, does not have an empty value. -/
theorem get_looks_up_iff {w fuel : Nat} {cs : List CString} (hb : PointerBlock mem w cs) (hn : cs.length < fuel)
    (hfuel : ∀ c ∈ cs, c.bytes.length < fuel) {key : List U8} (hkey : equalsSign ∉ key) :
    ∃ r, (QuantumEnv.fromPtr w).get mem fuel key = some r ∧
      (LooksUp cs key (r.map (ByteSlice.bytes · mem)) ↔ FirstValueNonempty cs key) := by
  refine ⟨_, search_block _ hb hn hfuel, ?_⟩
  rw [firstReturn_visitKey hb hkey]
  exact looksUp_find_iff cs key

/-! ## Lookup by hash -/

/-- The hash of an entry's key. -/
def keyHash (c : CString) : Option U64 := (entryKey c).map fnv1aConst

theorem keyHash_eq_none {c : CString} : keyHash c = none ↔ equalsSign ∉ c.bytes := by
  rw [← keyValue_eq_none, keyHash, entryKey, keyValue, Option.map_eq_none_iff, Option.map_eq_none_iff,
    Option.map_eq_none_iff]

/-- A value that fits the table is kept whole. -/
theorem keyValue_of_short {c : CString} (h : ∀ value, entryValue c = some value → value.length ≤ 0xffff) {hash : U64}
    (hk : keyHash c = some hash) : ∃ value, entryValue c = some value ∧ keyValue c = some (hash, value) := by
  obtain ⟨key, hkey, rfl⟩ := Option.map_eq_some_iff.mp hk
  obtain ⟨sep, hsep, rfl⟩ := Option.map_eq_some_iff.mp hkey
  have hvalue : entryValue c = some (c.bytes.drop (sep + 1)) := by rw [entryValue, hsep]; rfl
  refine ⟨_, hvalue, ?_⟩
  rw [keyValue, hsep, Option.map_some, List.take_of_length_le (h _ hvalue)]

/-- The lookup in the table, over the entries the table was built from. -/
def tableLookup (key : PhaseKey) (cs : List CString) : Option (List U8) :=
  ((cs.filterMap keyValue).find? (·.1 == key.hash)).map Prod.snd

theorem tableLookup_cons_none {key : PhaseKey} {c : CString} {cs : List CString} (h : keyHash c = none) :
    tableLookup key (c :: cs) = tableLookup key cs := by
  have hnone : keyValue c = none := keyValue_eq_none.mpr (keyHash_eq_none.mp h)
  rw [tableLookup, List.filterMap_cons_none hnone, tableLookup]

theorem tableLookup_cons_some {key : PhaseKey} {c : CString} {cs : List CString} {hash : U64} {value : List U8}
    (h : keyValue c = some (hash, value)) :
    tableLookup key (c :: cs) = if hash = key.hash then some value else tableLookup key cs := by
  rw [tableLookup, List.filterMap_cons_some h, List.find?_cons]
  by_cases hhash : hash = key.hash
  · simp [hhash]
  · have hbeq : (hash == key.hash) = false := by simpa using hhash
    rw [hbeq, if_neg hhash, tableLookup]

/-- Some entry has a key with this hash. -/
def Matches (key : PhaseKey) (cs : List CString) : Prop := ∃ c ∈ cs, keyHash c = some key.hash

theorem tableLookup_eq_none {key : PhaseKey} {cs : List CString} : tableLookup key cs = none ↔ ¬ Matches key cs := by
  rw [tableLookup, Option.map_eq_none_iff, List.find?_eq_none]
  constructor
  · rintro h ⟨c, hc, hk⟩
    obtain ⟨k, hkey, hhash⟩ := Option.map_eq_some_iff.mp hk
    obtain ⟨sep, hsep, rfl⟩ := Option.map_eq_some_iff.mp hkey
    have hmem : (key.hash, (c.bytes.drop (sep + 1)).take 0xffff) ∈ cs.filterMap keyValue :=
      List.mem_filterMap.mpr ⟨c, hc, by rw [keyValue, hsep, Option.map_some, hhash]⟩
    exact h _ hmem (by simp)
  · rintro h ⟨hash, value⟩ hmem heq
    obtain ⟨c, hc, hkv⟩ := List.mem_filterMap.mp hmem
    obtain ⟨sep, hsep, hpair⟩ := Option.map_eq_some_iff.mp hkv
    obtain ⟨hhash, -⟩ := Prod.mk.inj hpair
    refine h ⟨c, hc, ?_⟩
    rw [keyHash, entryKey, hsep, Option.map_some, Option.map_some, hhash]
    simpa using heq

/-- An entry without `=` stands before the first entry whose key has this hash. -/
def HiddenByMalformed (key : PhaseKey) (cs : List CString) : Prop :=
  ∃ before d after, cs = before ++ d :: after ∧ equalsSign ∉ d.bytes ∧
    (∀ c ∈ before, keyHash c ≠ some key.hash) ∧ Matches key after

theorem hiddenByMalformed_cons {key : PhaseKey} {c : CString} {cs : List CString} :
    HiddenByMalformed key (c :: cs) ↔ (equalsSign ∉ c.bytes ∧ Matches key cs) ∨
      (keyHash c ≠ some key.hash ∧ HiddenByMalformed key cs) := by
  constructor
  · rintro ⟨before, d, after, hcs, hd, hbefore, hafter⟩
    cases before with
    | nil =>
        obtain ⟨rfl, rfl⟩ := List.cons.inj hcs
        exact Or.inl ⟨hd, hafter⟩
    | cons b before =>
        obtain ⟨rfl, rfl⟩ := List.cons.inj hcs
        obtain ⟨hb, hbefore⟩ := List.forall_mem_cons.mp hbefore
        exact Or.inr ⟨hb, before, d, after, rfl, hd, hbefore, hafter⟩
  · rintro (⟨hc, hmatch⟩ | ⟨hc, before, d, after, rfl, hd, hbefore, hafter⟩)
    · exact ⟨[], c, cs, rfl, hc, by simp, hmatch⟩
    · exact ⟨c :: before, d, after, rfl, hd, List.forall_mem_cons.mpr ⟨hc, hbefore⟩, hafter⟩

theorem HiddenByMalformed.matches {key : PhaseKey} {cs : List CString} (h : HiddenByMalformed key cs) :
    Matches key cs := by
  obtain ⟨before, d, after, rfl, -, -, c, hc, hk⟩ := h
  exact ⟨c, by simp [hc], hk⟩

/-- The scan by hash finds what the table holds, unless a malformed entry hides it. -/
theorem firstReturn_visitPhase_iff {w : Nat} {cs : List CString} (hb : PointerBlock mem w cs)
    (hshort : ∀ c ∈ cs, ∀ value, entryValue c = some value → value.length ≤ 0xffff) (key : PhaseKey) :
    (firstReturn (QuantumEnv.visitPhase mem key) cs).map (ByteSlice.bytes · mem) = tableLookup key cs
      ↔ ¬ HiddenByMalformed key cs := by
  induction cs generalizing w with
  | nil => simp [firstReturn, tableLookup, HiddenByMalformed]
  | cons c cs ih =>
      obtain ⟨-, hstored, hrest⟩ := hb
      obtain ⟨hc, hshort⟩ := List.forall_mem_cons.mp hshort
      rw [firstReturn, QuantumEnv.visitPhase, show c.slice.bytes mem = c.bytes from hstored.bytes_eq,
        hiddenByMalformed_cons]
      cases hsep : EnvSnapshot.separator c.bytes with
      | none =>
          -- the scan gives up here, so it agrees only if nothing later matches
          have hnone : keyHash c = none := by rw [keyHash, entryKey, hsep]; rfl
          rw [tableLookup_cons_none hnone]
          simp only [Option.getD_some, Option.map_none, keyHash_eq_none.mp hnone, not_false_eq_true, true_and,
            hnone]
          rw [eq_comm, tableLookup_eq_none, not_iff_not]
          exact ⟨Or.inl, fun h => h.elim id fun h => h.2.matches⟩
      | some sep =>
          have hk : keyHash c = some (fnv1aConst (c.bytes.take sep)) := by rw [keyHash, entryKey, hsep]; rfl
          have heq : ¬ equalsSign ∉ c.bytes := by
            rw [← keyHash_eq_none, hk]
            simp
          obtain ⟨value, hvalue, hkv⟩ := keyValue_of_short hc hk
          rw [tableLookup_cons_some hkv, hk]
          by_cases hhash : fnv1aConst (c.bytes.take sep) = key.hash
          · have hdrop : c.bytes.drop (sep + 1) = value := by
              rw [entryValue, hsep] at hvalue
              exact Option.some.inj hvalue
            simp [hhash, heq, bytes_tailFrom hstored, hdrop]
          · simp only [heq, false_and, false_or, ne_eq, Option.some.injEq, hhash, not_false_eq_true, true_and]
            exact ih hrest hshort

/-- **The two lookups by hash, exactly.** For every envp block of at most `MAX_ENV_VARS` entries whose values
    have at most 65535 bytes, and every phase key, both lookups return (with fuel for one pass over the block),
    and they return the same value bytes if and only if no entry without `=` stands before the first entry
    whose key has the hash. -/
theorem phase_lookups_agree_iff {w fuel : Nat} {cs : List CString} (hb : PointerBlock mem w cs)
    (hn : cs.length < fuel) (hfuel : ∀ c ∈ cs, c.bytes.length < fuel) (hmax : cs.length ≤ maxEnvVars)
    (hshort : ∀ c ∈ cs, ∀ value, entryValue c = some value → value.length ≤ 0xffff) (key : PhaseKey) :
    ∃ r snap, (QuantumEnv.fromPtr w).getPhase mem fuel key = some r ∧
      EnvSnapshot.collapse mem fuel (.fromPtr w) = some snap ∧
      ((∀ value, r.map (ByteSlice.bytes · mem) = some value ↔
          (snap.get key).map (ByteSlice.bytes · mem) = some value) ↔
        ¬ HiddenByMalformed key cs) := by
  obtain ⟨snap, hsnap, hpairs⟩ := collapse_block hb hn hfuel
  refine ⟨_, snap, search_block _ hb hn hfuel, hsnap, ?_⟩
  have hlen : (cs.filterMap keyValue).length ≤ maxEnvVars := (List.length_filterMap_le ..).trans hmax
  rw [List.take_of_length_le hlen] at hpairs
  have htable : (snap.get key).map (ByteSlice.bytes · mem) = tableLookup key cs := by
    rw [EnvSnapshot.get, tableLookup, ← hpairs, List.find?_map, Option.map_map, Option.map_map]
    rfl
  rw [htable, ← firstReturn_visitPhase_iff hb hshort key]
  exact ⟨Option.ext, fun h value => by rw [h]⟩

end

/-! ### An empty value, and an entry without `=` -/

/-- `A=`, at address 4100. -/
def emptyValue : CString := ⟨4100, [0x41, 0x3d]⟩

/-- `X`, at address 4104. -/
def noSeparator : CString := ⟨4104, [0x58]⟩

/-- A memory with `A=B`, `A=` and `X`, whose words are the given pointers. -/
def lookupMemory (ptrs : List U64) : Memory where
  word := fun w => (ptrs[w]?).getD 0
  byte := fun a =>
    if a = 4096 ∨ a = 4100 then 0x41 else if a = 4097 ∨ a = 4101 then 0x3d
    else if a = 4098 then 0x42 else if a = 4104 then 0x58 else 0

theorem sampleString_stored_at (ptrs : List U64) : sampleString.Stored (lookupMemory ptrs) :=
  ⟨by decide, rfl, by decide, rfl⟩

theorem emptyValue_stored (ptrs : List U64) : emptyValue.Stored (lookupMemory ptrs) :=
  ⟨by decide, rfl, by decide, rfl⟩

theorem noSeparator_stored (ptrs : List U64) : noSeparator.Stored (lookupMemory ptrs) :=
  ⟨by decide, rfl, by decide, rfl⟩

/-- Only `A=`. -/
theorem empty_value_block : PointerBlock (lookupMemory [4100]) 0 [emptyValue] :=
  ⟨rfl, emptyValue_stored _, rfl⟩

/-- `X`, then `A=B`. -/
theorem malformed_first_block : PointerBlock (lookupMemory [4104, 4096]) 0 [noSeparator, sampleString] :=
  ⟨rfl, noSeparator_stored _, rfl, sampleString_stored_at _, rfl⟩

/-- `A=B`, `AB=C`, `AB=D`, `X`: for the key `AB`, a prefix of it, the key twice, and an entry without `=`. -/
theorem variables_block :
    PointerBlock (variablesMemory [8192, 8200, 8208, 8216]) 0 [shortKey, longKey, repeatedKey, bareWord] :=
  ⟨rfl, shortKey_stored _, rfl, longKey_stored _, rfl, repeatedKey_stored _, rfl, bareWord_stored _, rfl⟩

/-- Looking up `AB` finds the first of its two values. -/
theorem get_first_of_two :
    (QuantumEnv.fromPtr 0).get (variablesMemory [8192, 8200, 8208, 8216]) 9 [0x41, 0x42]
        = some (some ⟨8203, 1⟩) ∧
      LooksUp [shortKey, longKey, repeatedKey, bareWord] [0x41, 0x42] (some [0x43]) := by
  have hget : (QuantumEnv.fromPtr 0).get (variablesMemory [8192, 8200, 8208, 8216]) 9 [0x41, 0x42]
      = some (some ⟨8203, 1⟩) := by decide +kernel
  obtain ⟨r, hr, hiff⟩ := get_looks_up_iff variables_block (show _ < 9 by decide) (by decide)
    (show equalsSign ∉ [0x41, 0x42] by decide)
  obtain rfl := Option.some.inj (hget.symm.trans hr)
  refine ⟨hget, hiff.mpr ?_⟩
  intro before c after hcs _ _
  have hall : ∀ c ∈ [shortKey, longKey, repeatedKey, bareWord], entryValue c ≠ some [] := by decide
  exact hall c (by rw [hcs]; simp)

/-- **A variable set to the empty string is not found.** -/
theorem get_misses_empty_value :
    PointerBlock (lookupMemory [4100]) 0 [emptyValue] ∧
    (QuantumEnv.fromPtr 0).get (lookupMemory [4100]) 9 [0x41] = some none ∧
    entryKey emptyValue = some [0x41] ∧ entryValue emptyValue = some [] ∧
    ¬ LooksUp [emptyValue] [0x41] none := by
  refine ⟨empty_value_block, by decide, by decide, by decide, ?_⟩
  intro h
  have habsent := h.absent.mp rfl emptyValue (by simp)
  exact habsent (by decide)

/-- The two lookups by hash find the first value of `AB`, the entry without `=` being behind it. -/
theorem phase_lookups_first_of_two :
    ∃ snap, (QuantumEnv.fromPtr 0).getPhase (variablesMemory [8192, 8200, 8208, 8216]) 9 (.fromBytes [0x41, 0x42])
        = some (some ⟨8203, 1⟩) ∧
      EnvSnapshot.collapse (variablesMemory [8192, 8200, 8208, 8216]) 9 (.fromPtr 0) = some snap ∧
      (snap.get (.fromBytes [0x41, 0x42])).map
        (ByteSlice.bytes · (variablesMemory [8192, 8200, 8208, 8216])) = some [0x43] := by
  have hget : (QuantumEnv.fromPtr 0).getPhase (variablesMemory [8192, 8200, 8208, 8216]) 9 (.fromBytes [0x41, 0x42])
      = some (some ⟨8203, 1⟩) := by decide +kernel
  obtain ⟨r, snap, hr, hsnap, hiff⟩ := phase_lookups_agree_iff variables_block (show _ < 9 by decide)
    (by decide) (by decide) (by decide) (.fromBytes [0x41, 0x42])
  obtain rfl := Option.some.inj (hget.symm.trans hr)
  have hvisible : ¬ HiddenByMalformed (.fromBytes [0x41, 0x42]) [shortKey, longKey, repeatedKey, bareWord] := by
    rw [hiddenByMalformed_cons, hiddenByMalformed_cons]
    rintro (⟨hnone, -⟩ | ⟨-, ⟨hnone, -⟩ | ⟨hother, -⟩⟩)
    · exact hnone (by decide)
    · exact hnone (by decide)
    · exact hother (by decide)
  exact ⟨snap, hget, hsnap, (hiff.mpr hvisible [0x43]).mp (by decide)⟩

/-- **A malformed entry hides a variable from the scan by hash.** In the block `X`, `A=B` the scan finds no
    `A`, while the table holds it. -/
theorem phase_lookups_disagree :
    PointerBlock (lookupMemory [4104, 4096]) 0 [noSeparator, sampleString] ∧
    (QuantumEnv.fromPtr 0).getPhase (lookupMemory [4104, 4096]) 9 (.fromBytes [0x41]) = some none ∧
    ∃ snap, EnvSnapshot.collapse (lookupMemory [4104, 4096]) 9 (.fromPtr 0) = some snap ∧
      (snap.get (.fromBytes [0x41])).map (ByteSlice.bytes · (lookupMemory [4104, 4096])) = some [0x42] := by
  obtain ⟨snap, hsnap, hpairs⟩ := collapse_block malformed_first_block (show 2 < 9 by decide) (by decide)
  refine ⟨malformed_first_block, by decide, snap, hsnap, ?_⟩
  have hlive : snap.live.map (EnvEntry.keyValue (lookupMemory [4104, 4096])) = [(fnv1aConst [0x41], [0x42])] :=
    hpairs.trans (by decide)
  have hget : (snap.get (.fromBytes [0x41])).map (ByteSlice.bytes · (lookupMemory [4104, 4096]))
      = ((snap.live.map (EnvEntry.keyValue (lookupMemory [4104, 4096]))).find?
          (·.1 == fnv1aConst [0x41])).map Prod.snd := by
    rw [EnvSnapshot.get, List.find?_map, Option.map_map, Option.map_map]
    rfl
  rw [hget, hlive]
  decide

end Slope.Env
