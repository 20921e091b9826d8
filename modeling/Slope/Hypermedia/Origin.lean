import Slope.Hypermedia.Http
import Slope.Lib.Bytes

/-!
# `Hypermedia.Origin` — canonical HTTPS origins and requests

`HttpsOrigin` and `HttpsRequest` have private fields in the source: their values come from `new`,
`parse_location` and `HttpIpcRequest::request` only. `Made` says so. The two `new_ok` lemmas give the normal
form of what `new` accepts and builds — the lower-cased host and the path, each padded with zeros — and the
rest of the development reasons through them.

Slices and indices are the checked ones of `Lib.Bytes`, so an out-of-range access would be visible as a result.
-/

namespace Slope.Hypermedia

def maxHttpRequestBytes : U16 := 2048
def maxHttpResponseBytes : U16 := 32 * 1024
def maxTcpSegments : U8 := 32

inductive HypermediaError where
  | notHttps
  | invalidHost
  | invalidPath
  | invalidBudget
  | invalidLease
  | leaseExpired
  | leaseMismatch
deriving DecidableEq

/-- Results of code that slices and indexes. -/
abbrev Checked (α : Type) := Except (Fault HypermediaError) α

def fail {α : Type} (err : HypermediaError) : Checked α := .error (.failed err)

/-! ## Budget -/

/-- Work admitted for one brokered HTTPS transaction. -/
structure HttpBudget where
  requestBytes : U16
  responseBytes : U16
  maxSegments : U8
  yieldEverySegments : U8
deriving DecidableEq

namespace HttpBudget

def isValid (b : HttpBudget) : Bool :=
  b.requestBytes != 0
    && b.requestBytes ≤ maxHttpRequestBytes
    && b.responseBytes != 0
    && b.responseBytes ≤ maxHttpResponseBytes
    && b.maxSegments != 0
    && b.maxSegments ≤ maxTcpSegments
    && b.yieldEverySegments != 0
    && b.yieldEverySegments ≤ b.maxSegments

end HttpBudget

/-! ## Origin -/

/-- A canonical HTTPS origin. -/
structure HttpsOrigin where
  host : Vector U8 maxHttpHostBytes
  hostLength : U8
deriving DecidableEq

namespace HttpsOrigin

def dot : U8 := 0x2e
def hyphen : U8 := 0x2d

/-- The validation loop: `none` on an invalid byte, else the final `previous_dot`. -/
def scanHost (previousDot : Bool) : List U8 → Option Bool
  | [] => some previousDot
  | byte :: rest =>
    let valid := Ascii.isAsciiAlphanumeric byte || byte == hyphen || byte == dot
    if !valid || (byte == dot && previousDot) then none
    else scanHost (byte == dot) rest

/-- The copying loop, from position `i` on. -/
def fillHost (output : Vector U8 maxHttpHostBytes) (i : Nat) :
    List U8 → Checked (Vector U8 maxHttpHostBytes)
  | [] => .ok output
  | byte :: rest => do
    let output ← storeAt output i (Ascii.toAsciiLowercase byte)
    fillHost output (i + 1) rest

def new (host : List U8) : Checked HttpsOrigin :=
  if host.isEmpty || maxHttpHostBytes < host.length then fail .invalidHost
  else
    match scanHost true host with
    | none => fail .invalidHost
    | some previousDot => do
      let first ← index host 0
      let last ← index host (host.length - 1)
      if previousDot || first == hyphen || last == hyphen then fail .invalidHost
      else
        let stored ← fillHost (Vector.replicate maxHttpHostBytes 0) 0 host
        pure { host := stored, hostLength := BitVec.ofNat 8 host.length }

/-- The accessor `host()`. -/
def hostBytes (o : HttpsOrigin) : Checked (List U8) := sliceTo o.host.toList o.hostLength.toNat

end HttpsOrigin

/-! ## Request -/

/-- One HTTPS request that can be sent only by a matching unexpired lease. -/
structure HttpsRequest where
  origin : HttpsOrigin
  path : Vector U8 maxHttpPathBytes
  pathLength : U8
  budget : HttpBudget
deriving DecidableEq

namespace HttpsRequest

def slash : U8 := 0x2f
def numberSign : U8 := 0x23

def new (origin : HttpsOrigin) (path : List U8) (budget : HttpBudget) : Checked HttpsRequest := do
  let refused ←
    if path.isEmpty || maxHttpPathBytes < path.length then pure true
    else do
      let first ← index path 0
      pure (first != slash || !budget.isValid)
  if refused then fail (if budget.isValid then .invalidPath else .invalidBudget)
  else if path.any (fun byte => !Ascii.isAsciiGraphic byte || byte == numberSign) then
    fail .invalidPath
  else
    let stored ← copyTo (Vector.replicate maxHttpPathBytes 0) path.length path
    pure { origin, path := stored, pathLength := BitVec.ofNat 8 path.length, budget }

/-- The bytes of `https://`. -/
def httpsScheme : List U8 := [0x68, 0x74, 0x74, 0x70, 0x73, 0x3a, 0x2f, 0x2f]

/-- The path part of a location whose host ends at `split`; a missing path is the root. -/
def locationPath (remainder : List U8) (split : Nat) : Checked (List U8) :=
  if split = remainder.length then pure [slash] else sliceFrom remainder split

def parseLocation (location : List U8) (budget : HttpBudget) : Checked HttpsRequest :=
  match httpsScheme.isPrefixOf? location with
  | none => fail .notHttps
  | some remainder => do
    let split := remainder.findIdx (· == slash)
    let origin ← HttpsOrigin.new (← sliceTo remainder split)
    let path ← locationPath remainder split
    new origin path budget

/-- The accessor `path()`. -/
def pathBytes (r : HttpsRequest) : Checked (List U8) := sliceTo r.path.toList r.pathLength.toNat

end HttpsRequest

/-! ## The normal form of an origin -/

namespace HttpsOrigin

/-- The hosts that `new` accepts. -/
def acceptable (host : List U8) : Bool :=
  !host.isEmpty && host.length ≤ maxHttpHostBytes && scanHost true host == some false
    && host.head? != some hyphen && host.getLast? != some hyphen

/-- The origin that `new` builds: the host in lower case, padded with zeros. -/
def canonical (host : List U8) : HttpsOrigin where
  host := pad maxHttpHostBytes (host.map Ascii.toAsciiLowercase)
  hostLength := BitVec.ofNat 8 host.length

theorem fillHost_pad (done rest : List U8) (h : done.length + rest.length ≤ maxHttpHostBytes) :
    fillHost (pad maxHttpHostBytes done) done.length rest
      = .ok (pad maxHttpHostBytes (done ++ rest.map Ascii.toAsciiLowercase)) := by
  induction rest generalizing done with
  | nil => simp [fillHost]
  | cons byte rest ih =>
      rw [List.length_cons] at h
      have hnext := ih (done ++ [Ascii.toAsciiLowercase byte]) (by simp; omega)
      rw [List.length_append, List.length_singleton] at hnext
      rw [fillHost, storeAt_pad (by omega)]
      show fillHost _ _ _ = _
      rw [hnext, List.append_assoc]
      rfl

/-- **`new` in closed form.** An acceptable host gives its canonical origin, any other host is refused, and no
    access is out of range. -/
theorem new_eq (host : List U8) :
    new host = if acceptable host then .ok (canonical host) else fail .invalidHost := by
  unfold new acceptable
  rcases host with _ | ⟨byte, rest⟩
  · rfl
  · by_cases hlen : (byte :: rest).length ≤ maxHttpHostBytes
    · have hfill : fillHost (Vector.replicate maxHttpHostBytes 0) 0 (byte :: rest)
          = .ok (canonical (byte :: rest)).host := by
        have h := fillHost_pad [] (byte :: rest) (by simpa using hlen)
        rwa [pad_nil] at h
      have hlast : index (ε := HypermediaError) (byte :: rest) ((byte :: rest).length - 1)
          = .ok ((byte :: rest).getLast (List.cons_ne_nil _ _)) := by
        rw [index_eq (by simp), List.getLast_eq_getElem]
      rw [if_neg (by simpa using hlen), List.getLast?_eq_some_getLast (List.cons_ne_nil _ _)]
      cases hscan : scanHost true (byte :: rest) with
      | none => simp
      | some previousDot =>
          simp only [hlast, index_zero, bind, Except.bind]
          cases previousDot with
          | true => simp
          | false =>
              by_cases hb : byte = hyphen
              · simp [hb]
              · by_cases hl : (byte :: rest).getLast (List.cons_ne_nil _ _) = hyphen
                · simp [hl]
                · have hok : rest.length + 1 ≤ maxHttpHostBytes := hlen
                  rw [if_neg (by simp [hb, hl]), if_pos (by simp [hb, hl, hok]), hfill]
                  rfl
    · have hlong : ¬ rest.length + 1 ≤ maxHttpHostBytes := hlen
      rw [if_pos (by simpa using hlen), if_neg (by simp [hlong])]

theorem new_ok {host : List U8} {o : HttpsOrigin} :
    new host = .ok o ↔ acceptable host = true ∧ o = canonical host := by
  rw [new_eq]
  by_cases h : acceptable host = true
  · simp [h, eq_comm]
  · simp [fail, h]

theorem length_le_of_acceptable {host : List U8} (h : acceptable host = true) :
    0 < host.length ∧ host.length ≤ maxHttpHostBytes := by
  simp only [acceptable, Bool.and_eq_true, Bool.not_eq_true', decide_eq_true_eq] at h
  obtain ⟨⟨⟨⟨hne, hlen⟩, -⟩, -⟩, -⟩ := h
  exact ⟨List.length_pos_iff.mpr (List.isEmpty_eq_false_iff.mp hne), hlen⟩

/-- Case folding is invisible to the validation loop. -/
theorem scanHost_lower (previousDot : Bool) (host : List U8) :
    scanHost previousDot (host.map Ascii.toAsciiLowercase) = scanHost previousDot host := by
  induction host generalizing previousDot with
  | nil => rfl
  | cons byte rest ih =>
      have hdot : (Ascii.toAsciiLowercase byte == dot) = (byte == dot) := by
        rw [Bool.eq_iff_iff, beq_iff_eq, beq_iff_eq, Ascii.toAsciiLowercase_eq_iff (by decide)]
      have hhyphen : (Ascii.toAsciiLowercase byte == hyphen) = (byte == hyphen) := by
        rw [Bool.eq_iff_iff, beq_iff_eq, beq_iff_eq, Ascii.toAsciiLowercase_eq_iff (by decide)]
      simp only [List.map_cons, scanHost, Ascii.isAsciiAlphanumeric_lower, hdot, hhyphen, ih]

theorem acceptable_lower (host : List U8) :
    acceptable (host.map Ascii.toAsciiLowercase) = acceptable host := by
  have hedge : ∀ o : Option U8, (o.map Ascii.toAsciiLowercase != some hyphen) = (o != some hyphen) := by
    intro o
    cases o with
    | none => rfl
    | some byte =>
        rw [Bool.eq_iff_iff, bne_iff_ne, bne_iff_ne, Option.map_some]
        simp only [ne_eq, Option.some.injEq]
        rw [Ascii.toAsciiLowercase_eq_iff (by decide)]
  simp only [acceptable, List.isEmpty_map, List.length_map, scanHost_lower, List.head?_map,
    List.getLast?_map, hedge]

theorem canonical_lower (host : List U8) :
    canonical (host.map Ascii.toAsciiLowercase) = canonical host := by
  have hid : Ascii.toAsciiLowercase ∘ Ascii.toAsciiLowercase = Ascii.toAsciiLowercase :=
    funext Ascii.toAsciiLowercase_idem
  simp only [canonical, List.length_map, List.map_map, hid]

/-- The length byte of a canonical origin is exact. -/
theorem toNat_hostLength {host : List U8} (h : host.length ≤ maxHttpHostBytes) :
    (canonical host).hostLength.toNat = host.length := by
  show (BitVec.ofNat 8 host.length).toNat = host.length
  rw [BitVec.toNat_ofNat]
  exact Nat.mod_eq_of_lt (Nat.lt_of_le_of_lt h (by decide))

/-- Reading a canonical origin back gives the host in lower case. -/
theorem hostBytes_canonical {host : List U8} (h : host.length ≤ maxHttpHostBytes) :
    (canonical host).hostBytes = .ok (host.map Ascii.toAsciiLowercase) := by
  have hlen : (host.map Ascii.toAsciiLowercase).length ≤ maxHttpHostBytes := by simpa using h
  have htake := take_pad hlen
  rw [List.length_map] at htake
  unfold hostBytes
  rw [toNat_hostLength h, sliceTo_eq (by simpa using h)]
  exact congrArg Except.ok htake

end HttpsOrigin

/-! ## The normal form of a request -/

namespace HttpsRequest

/-- The paths that `new` accepts. -/
def acceptable (path : List U8) : Bool :=
  path.head? == some slash && path.length ≤ maxHttpPathBytes
    && path.all fun byte => Ascii.isAsciiGraphic byte && byte != numberSign

/-- The request that `new` builds: the path padded with zeros. -/
def canonical (origin : HttpsOrigin) (path : List U8) (budget : HttpBudget) : HttpsRequest where
  origin
  path := pad maxHttpPathBytes path
  pathLength := BitVec.ofNat 8 path.length
  budget

/-- **`new` in closed form.** -/
theorem new_eq (origin : HttpsOrigin) (path : List U8) (budget : HttpBudget) :
    new origin path budget =
      if budget.isValid then
        if acceptable path then .ok (canonical origin path budget) else fail .invalidPath
      else fail .invalidBudget := by
  have hclean : ∀ path : List U8,
      (path.any fun byte => !Ascii.isAsciiGraphic byte || byte == numberSign)
        = !(path.all fun byte => Ascii.isAsciiGraphic byte && byte != numberSign) := by
    intro path
    simp [List.all_eq_not_any_not, bne]
  unfold new acceptable
  rcases path with _ | ⟨byte, rest⟩
  · cases hb : budget.isValid <;> rfl
  · by_cases hlen : (byte :: rest).length ≤ maxHttpPathBytes
    · have hcopy : copyTo (ε := HypermediaError) (Vector.replicate maxHttpPathBytes 0)
          (byte :: rest).length (byte :: rest) = .ok (canonical origin (byte :: rest) budget).path :=
        copyTo_replicate hlen
      rw [if_neg (by simpa using hlen), hclean]
      simp only [index_zero, bind, Except.bind, pure, Except.pure, hcopy, hlen, decide_true,
        Bool.and_true, List.head?_cons]
      generalize (byte :: rest).all (fun byte => Ascii.isAsciiGraphic byte && byte != numberSign) = clean
      by_cases hs : byte = slash
      · cases hb : budget.isValid <;> cases clean <;> simp [hs, canonical]
      · cases hb : budget.isValid <;> simp [hs]
    · have hlong : ¬ rest.length + 1 ≤ maxHttpPathBytes := hlen
      rw [if_pos (by simpa using hlen)]
      cases hb : budget.isValid <;> simp [bind, Except.bind, pure, Except.pure, hlong]

theorem new_ok {origin : HttpsOrigin} {path : List U8} {budget : HttpBudget} {r : HttpsRequest} :
    new origin path budget = .ok r ↔
      budget.isValid = true ∧ acceptable path = true ∧ r = canonical origin path budget := by
  rw [new_eq]
  by_cases hb : budget.isValid = true
  · by_cases hp : acceptable path = true
    · simp [hb, hp, eq_comm]
    · simp [fail, hb, hp]
  · simp [fail, hb]

theorem length_le_of_acceptable {path : List U8} (h : acceptable path = true) :
    0 < path.length ∧ path.length ≤ maxHttpPathBytes := by
  simp only [acceptable, Bool.and_eq_true, beq_iff_eq, decide_eq_true_eq] at h
  obtain ⟨⟨hhead, hlen⟩, -⟩ := h
  refine ⟨?_, hlen⟩
  cases path with
  | nil => cases hhead
  | cons byte rest => simp

theorem toNat_pathLength {origin : HttpsOrigin} {path : List U8} {budget : HttpBudget}
    (h : path.length ≤ maxHttpPathBytes) : (canonical origin path budget).pathLength.toNat = path.length := by
  show (BitVec.ofNat 8 path.length).toNat = path.length
  rw [BitVec.toNat_ofNat]
  exact Nat.mod_eq_of_lt (Nat.lt_of_le_of_lt h (by decide))

theorem pathBytes_canonical {origin : HttpsOrigin} {path : List U8} {budget : HttpBudget}
    (h : path.length ≤ maxHttpPathBytes) : (canonical origin path budget).pathBytes = .ok path := by
  unfold pathBytes
  rw [toNat_pathLength h, sliceTo_eq (by simpa using h)]
  exact congrArg Except.ok (take_pad h)

/-! ## Values that can exist -/

/-- The requests that can exist: the ones `new` builds for an origin that exists, or `parse_location`. -/
def Made (r : HttpsRequest) : Prop :=
  (∃ host origin path budget, HttpsOrigin.new host = .ok origin ∧ new origin path budget = .ok r) ∨
    ∃ location budget, parseLocation location budget = .ok r

/-- **Every request that exists is canonical.** -/
theorem Made.canonical {r : HttpsRequest} (h : r.Made) :
    ∃ host path budget, HttpsOrigin.acceptable host = true ∧ acceptable path = true ∧
      budget.isValid = true ∧ r = .canonical (.canonical host) path budget := by
  have hnew : ∀ host origin path budget, HttpsOrigin.new host = .ok origin →
      new origin path budget = .ok r → ∃ host path budget, HttpsOrigin.acceptable host = true ∧
        acceptable path = true ∧ budget.isValid = true ∧
          r = HttpsRequest.canonical (.canonical host) path budget := by
    intro host origin path budget ho hr
    obtain ⟨hhost, rfl⟩ := HttpsOrigin.new_ok.mp ho
    obtain ⟨hb, hp, rfl⟩ := new_ok.mp hr
    exact ⟨host, path, budget, hhost, hp, hb, rfl⟩
  rcases h with ⟨host, origin, path, budget, ho, hr⟩ | ⟨location, budget, hr⟩
  · exact hnew host origin path budget ho hr
  · unfold parseLocation at hr
    split at hr
    · cases hr
    · next remainder hscheme =>
      obtain ⟨host, -, hr⟩ := bind_ok hr
      obtain ⟨origin, ho, hr⟩ := bind_ok hr
      obtain ⟨path, -, hr⟩ := bind_ok hr
      exact hnew host origin path budget ho hr

end HttpsRequest

end Slope.Hypermedia
