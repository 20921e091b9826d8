import Mathlib.Data.List.Basic
import Slope.Hypermedia.Origin

/-!
# `Hypermedia.Lease` — HTTPS leases and the wire record

`to_ipc_request` encodes a request under a lease into the fixed-layout wire record; `authorize_ipc` decodes a
record that arrived through shared memory and checks it against the lease. Encoder and decoder are inverse up
to what the decoder canonicalises: the letter case of the host and the bytes past the two lengths.
-/

namespace Slope.Hypermedia

/-! ## The code -/

/-- Opaque HTTPS authority imported from the broker. -/
structure HttpLease where
  capability : U64
  generation : U32
  origin : HttpsOrigin
  budget : HttpBudget
  expiryEpoch : U64
deriving DecidableEq

/-- The budget fields of a wire record. -/
def HttpIpcRequest.budget (w : HttpIpcRequest) : HttpBudget where
  requestBytes := w.requestBytes
  responseBytes := w.responseBytes
  maxSegments := w.maxSegments
  yieldEverySegments := w.yieldEverySegments

def HttpIpcRequest.request (w : HttpIpcRequest) : Checked HttpsRequest :=
  if w.version ≠ httpIpcVersion
      ∨ w.reserved ≠ Vector.replicate 2 0
      ∨ w.hostLength = 0
      ∨ maxHttpHostBytes < w.hostLength.toNat
      ∨ w.pathLength = 0
      ∨ maxHttpPathBytes < w.pathLength.toNat then
    fail .invalidLease
  else do
    let origin ← HttpsOrigin.new (← sliceTo w.host.toList w.hostLength.toNat)
    HttpsRequest.new origin (← sliceTo w.path.toList w.pathLength.toNat) w.budget

namespace HttpLease

/-- Imports an exact broker-issued authority. -/
def fromBroker (capability : U64) (generation : U32) (origin : HttpsOrigin) (budget : HttpBudget)
    (expiryEpoch : U64) : Except HypermediaError HttpLease :=
  if capability = 0 ∨ generation = 0 ∨ expiryEpoch = 0 ∨ !budget.isValid then .error .invalidLease
  else .ok { capability, generation, origin, budget, expiryEpoch }

def permits (l : HttpLease) (request : HttpsRequest) (currentEpoch : U64) :
    Except HypermediaError Unit :=
  if l.capability = 0 ∨ l.generation = 0 then .error .invalidLease
  else if l.expiryEpoch ≤ currentEpoch then .error .leaseExpired
  else if request.origin ≠ l.origin
      ∨ l.budget.requestBytes < request.budget.requestBytes
      ∨ l.budget.responseBytes < request.budget.responseBytes
      ∨ l.budget.maxSegments < request.budget.maxSegments
      ∨ l.budget.yieldEverySegments < request.budget.yieldEverySegments then
    .error .leaseMismatch
  else .ok ()

def toIpcRequest (l : HttpLease) (request : HttpsRequest) (currentEpoch : U64) (sequence : U32) :
    Checked HttpIpcRequest :=
  match l.permits request currentEpoch with
  | .error err => fail err
  | .ok () => do
    let wire := { HttpIpcRequest.empty with
      version := httpIpcVersion, capability := l.capability, generation := l.generation, sequence,
      expiryEpoch := l.expiryEpoch, hostLength := request.origin.hostLength,
      pathLength := request.pathLength }
    let host ← copyTo wire.host wire.hostLength.toNat (← request.origin.hostBytes)
    let path ← copyTo wire.path wire.pathLength.toNat (← request.pathBytes)
    pure { wire with
      host, path, requestBytes := request.budget.requestBytes,
      responseBytes := request.budget.responseBytes, maxSegments := request.budget.maxSegments,
      yieldEverySegments := request.budget.yieldEverySegments }

def authorizeIpc (l : HttpLease) (wire : HttpIpcRequest) (currentEpoch : U64) : Checked HttpsRequest :=
  if wire.version ≠ httpIpcVersion
      ∨ wire.capability ≠ l.capability
      ∨ wire.generation ≠ l.generation
      ∨ wire.expiryEpoch ≠ l.expiryEpoch then
    fail .leaseMismatch
  else do
    let request ← wire.request
    match l.permits request currentEpoch with
    | .error err => fail err
    | .ok () => pure request

end HttpLease

/-! ## The decoder -/

namespace HttpIpcRequest

/-- The host bytes a record carries. -/
def hostSlice (w : HttpIpcRequest) : List U8 := w.host.toList.take w.hostLength.toNat

/-- The path bytes a record carries. -/
def pathSlice (w : HttpIpcRequest) : List U8 := w.path.toList.take w.pathLength.toNat

/-- The fixed part of a record that the decoder insists on. -/
structure WellFramed (w : HttpIpcRequest) : Prop where
  version : w.version = httpIpcVersion
  reserved : w.reserved = Vector.replicate 2 0
  host : w.hostLength ≠ 0 ∧ w.hostLength.toNat ≤ maxHttpHostBytes
  path : w.pathLength ≠ 0 ∧ w.pathLength.toNat ≤ maxHttpPathBytes

theorem WellFramed.length_hostSlice {w : HttpIpcRequest} (h : w.WellFramed) :
    w.hostSlice.length = w.hostLength.toNat := by
  have := h.host.2
  simp only [hostSlice, List.length_take, Vector.length_toList]
  omega

theorem WellFramed.length_pathSlice {w : HttpIpcRequest} (h : w.WellFramed) :
    w.pathSlice.length = w.pathLength.toNat := by
  have := h.path.2
  simp only [pathSlice, List.length_take, Vector.length_toList]
  omega

/-- **The decoder in closed form.** It refuses a record that is not well framed, and otherwise rebuilds origin
    and request from the two slices; both slices are in range. -/
theorem request_eq (w : HttpIpcRequest) :
    (w.WellFramed ∧ w.request = do
      let origin ← HttpsOrigin.new w.hostSlice
      HttpsRequest.new origin w.pathSlice w.budget) ∨
      (¬ w.WellFramed ∧ w.request = fail .invalidLease) := by
  have hframe : (w.version ≠ httpIpcVersion ∨ w.reserved ≠ Vector.replicate 2 0 ∨ w.hostLength = 0 ∨
      maxHttpHostBytes < w.hostLength.toNat ∨ w.pathLength = 0 ∨ maxHttpPathBytes < w.pathLength.toNat) ↔
        ¬ w.WellFramed := by
    constructor
    · rintro (h | h | h | h | h | h) hw
      · exact h hw.version
      · exact h hw.reserved
      · exact hw.host.1 h
      · exact Nat.not_le.mpr h hw.host.2
      · exact hw.path.1 h
      · exact Nat.not_le.mpr h hw.path.2
    · intro hw
      by_contra hn
      simp only [not_or, not_not, Nat.not_lt] at hn
      obtain ⟨hver, hres, hh, hhl, hp, hpl⟩ := hn
      exact hw ⟨hver, hres, ⟨hh, hhl⟩, hp, hpl⟩
  unfold request
  by_cases hw : w.WellFramed
  · refine .inl ⟨hw, ?_⟩
    have hhost : sliceTo (ε := HypermediaError) w.host.toList w.hostLength.toNat = .ok w.hostSlice :=
      sliceTo_eq (by simpa using hw.host.2)
    have hpath : sliceTo (ε := HypermediaError) w.path.toList w.pathLength.toNat = .ok w.pathSlice :=
      sliceTo_eq (by simpa using hw.path.2)
    rw [if_neg (fun h => hframe.mp h hw), hhost, hpath]
    rfl
  · exact .inr ⟨hw, if_pos (hframe.mpr hw)⟩

/-- The decoder accepts exactly the well-framed records whose slices and budget are acceptable. -/
theorem request_ok {w : HttpIpcRequest} {r : HttpsRequest} :
    w.request = .ok r ↔
      w.WellFramed ∧ HttpsOrigin.acceptable w.hostSlice = true ∧
        HttpsRequest.acceptable w.pathSlice = true ∧ w.budget.isValid = true ∧
        r = .canonical (.canonical w.hostSlice) w.pathSlice w.budget := by
  rcases request_eq w with ⟨hw, heq⟩ | ⟨hw, heq⟩
  · rw [heq]
    constructor
    · intro h
      obtain ⟨origin, ho, hr⟩ := bind_ok h
      obtain ⟨hhost, rfl⟩ := HttpsOrigin.new_ok.mp ho
      obtain ⟨hb, hp, rfl⟩ := HttpsRequest.new_ok.mp hr
      exact ⟨hw, hhost, hp, hb, rfl⟩
    · rintro ⟨-, hhost, hp, hb, rfl⟩
      rw [HttpsOrigin.new_ok.mpr ⟨hhost, rfl⟩]
      exact HttpsRequest.new_ok.mpr ⟨hb, hp, rfl⟩
  · rw [heq]
    exact iff_of_false (by simp [fail]) (fun h => hw h.1)

/-- The decoder never indexes out of range. -/
theorem request_inRange (w : HttpIpcRequest) : w.request ≠ .error .outOfRange := by
  rcases request_eq w with ⟨-, heq⟩ | ⟨-, heq⟩
  · rw [heq, HttpsOrigin.new_eq]
    by_cases hh : HttpsOrigin.acceptable w.hostSlice = true
    · rw [if_pos hh]
      show HttpsRequest.new _ _ _ ≠ _
      rw [HttpsRequest.new_eq]
      by_cases hb : w.budget.isValid = true
      · by_cases hp : HttpsRequest.acceptable w.pathSlice = true <;> simp [hb, hp, fail]
      · simp [hb, fail]
    · rw [if_neg hh]
      simp [fail, bind, Except.bind]
  · rw [heq]
    simp [fail]

end HttpIpcRequest

/-! ## The encoder -/

namespace HttpLease

/-- **What a lease permits.** -/
theorem permits_ok {l : HttpLease} {r : HttpsRequest} {e : U64} :
    l.permits r e = .ok () ↔
      (l.capability ≠ 0 ∧ l.generation ≠ 0) ∧ e < l.expiryEpoch ∧ r.origin = l.origin ∧
        r.budget.requestBytes ≤ l.budget.requestBytes ∧ r.budget.responseBytes ≤ l.budget.responseBytes ∧
        r.budget.maxSegments ≤ l.budget.maxSegments ∧
        r.budget.yieldEverySegments ≤ l.budget.yieldEverySegments := by
  simp only [permits, guard_ok, not_or, ne_eq, not_not, BitVec.not_le, BitVec.not_lt, and_true]

/-- The record that encodes a canonical request. -/
def wireOf (l : HttpLease) (host path : List U8) (budget : HttpBudget) (sequence : U32) : HttpIpcRequest where
  version := httpIpcVersion
  requestBytes := budget.requestBytes
  responseBytes := budget.responseBytes
  maxSegments := budget.maxSegments
  yieldEverySegments := budget.yieldEverySegments
  capability := l.capability
  generation := l.generation
  sequence
  expiryEpoch := l.expiryEpoch
  hostLength := BitVec.ofNat 8 host.length
  pathLength := BitVec.ofNat 8 path.length
  reserved := Vector.replicate 2 0
  host := pad maxHttpHostBytes (host.map Ascii.toAsciiLowercase)
  path := pad maxHttpPathBytes path

/-- **The encoder in closed form**, on the requests that exist. -/
theorem toIpcRequest_canonical {l : HttpLease} {host path : List U8} {budget : HttpBudget} {e : U64}
    {s : U32} (hh : host.length ≤ maxHttpHostBytes) (hp : path.length ≤ maxHttpPathBytes)
    (hpermit : l.permits (.canonical (.canonical host) path budget) e = .ok ()) :
    l.toIpcRequest (.canonical (.canonical host) path budget) e s = .ok (l.wireOf host path budget s) := by
  have hhost : (HttpsRequest.canonical (.canonical host) path budget).origin.hostBytes
      = .ok (host.map Ascii.toAsciiLowercase) := HttpsOrigin.hostBytes_canonical hh
  have hpath : (HttpsRequest.canonical (.canonical host) path budget).pathBytes = .ok path :=
    HttpsRequest.pathBytes_canonical hp
  have hhostCopy : copyTo (ε := HypermediaError) HttpIpcRequest.empty.host
      (HttpsRequest.canonical (.canonical host) path budget).origin.hostLength.toNat
      (host.map Ascii.toAsciiLowercase) = .ok (l.wireOf host path budget s).host := by
    have hcopy : (host.map Ascii.toAsciiLowercase).length ≤ maxHttpHostBytes := by simpa using hh
    have hlen : (HttpsOrigin.canonical host).hostLength.toNat
        = (host.map Ascii.toAsciiLowercase).length := by
      rw [HttpsOrigin.toNat_hostLength hh, List.length_map]
    show copyTo _ (HttpsOrigin.canonical host).hostLength.toNat _ = _
    rw [hlen]
    exact copyTo_replicate hcopy
  have hpathCopy : copyTo (ε := HypermediaError) HttpIpcRequest.empty.path
      (HttpsRequest.canonical (.canonical host) path budget).pathLength.toNat path
      = .ok (l.wireOf host path budget s).path := by
    rw [HttpsRequest.toNat_pathLength hp]
    exact copyTo_replicate hp
  unfold toIpcRequest
  rw [hpermit]
  simp only [hhost, hpath, hhostCopy, hpathCopy, bind, Except.bind, pure, Except.pure]
  rfl

/-! ## Encoder and decoder -/

/-- The slices of an encoded record are the canonical host and the path. -/
theorem wellFramed_wireOf {l : HttpLease} {host path : List U8} {budget : HttpBudget} {s : U32}
    (hh : 0 < host.length ∧ host.length ≤ maxHttpHostBytes)
    (hp : 0 < path.length ∧ path.length ≤ maxHttpPathBytes) :
    (l.wireOf host path budget s).WellFramed ∧
      (l.wireOf host path budget s).hostSlice = host.map Ascii.toAsciiLowercase ∧
      (l.wireOf host path budget s).pathSlice = path := by
  have hhl : (l.wireOf host path budget s).hostLength.toNat = host.length :=
    HttpsOrigin.toNat_hostLength hh.2
  have hpl : (l.wireOf host path budget s).pathLength.toNat = path.length := by
    show (HttpsRequest.canonical l.origin path budget).pathLength.toNat = path.length
    exact HttpsRequest.toNat_pathLength hp.2
  refine ⟨⟨rfl, rfl, ⟨?_, by rw [hhl]; exact hh.2⟩, ?_, by rw [hpl]; exact hp.2⟩, ?_, ?_⟩
  · rw [Word.ne_zero_iff, hhl]
    exact hh.1
  · rw [Word.ne_zero_iff, hpl]
    exact hp.1
  · have hlen : (host.map Ascii.toAsciiLowercase).length ≤ maxHttpHostBytes := by simpa using hh.2
    unfold HttpIpcRequest.hostSlice
    rw [hhl, ← List.length_map Ascii.toAsciiLowercase]
    exact take_pad hlen
  · unfold HttpIpcRequest.pathSlice
    rw [hpl]
    exact take_pad hp.2

/-- Decoding an encoded request gives the request back. -/
theorem request_wireOf {l : HttpLease} {host path : List U8} {budget : HttpBudget} {s : U32}
    (hh : HttpsOrigin.acceptable host = true) (hp : HttpsRequest.acceptable path = true)
    (hb : budget.isValid = true) :
    (l.wireOf host path budget s).request = .ok (.canonical (.canonical host) path budget) := by
  have hframe : (l.wireOf host path budget s).WellFramed ∧ _ :=
    wellFramed_wireOf (HttpsOrigin.length_le_of_acceptable hh) (HttpsRequest.length_le_of_acceptable hp)
  obtain ⟨hw, hhost, hpath⟩ := hframe
  refine HttpIpcRequest.request_ok.mpr ⟨hw, ?_, ?_, hb, ?_⟩
  · rw [hhost, HttpsOrigin.acceptable_lower, hh]
  · rw [hpath, hp]
  · rw [hhost, hpath, HttpsOrigin.canonical_lower]
    rfl

/-- **What authorisation means.** -/
theorem authorizeIpc_ok {l : HttpLease} {w : HttpIpcRequest} {e : U64} {r : HttpsRequest} :
    l.authorizeIpc w e = .ok r ↔
      (w.version = httpIpcVersion ∧ w.capability = l.capability ∧ w.generation = l.generation ∧
        w.expiryEpoch = l.expiryEpoch) ∧ w.request = .ok r ∧ l.permits r e = .ok () := by
  unfold authorizeIpc
  split_ifs with hhead
  · refine iff_of_false (by simp [fail]) ?_
    rintro ⟨⟨h₁, h₂, h₃, h₄⟩, -⟩
    simp [h₁, h₂, h₃, h₄] at hhead
  · simp only [not_or, ne_eq, not_not] at hhead
    constructor
    · intro h
      obtain ⟨r', hr', h⟩ := bind_ok h
      cases hpermit : l.permits r' e with
      | error err => simp [hpermit, fail] at h
      | ok u =>
          obtain rfl : r' = r := by simpa [hpermit, pure, Except.pure] using h
          exact ⟨hhead, hr', hpermit⟩
    · rintro ⟨-, hr, hpermit⟩
      simp [hr, hpermit, bind, Except.bind, pure, Except.pure]

end HttpLease

/-- Two records that differ at most in the letter case of the host and in the bytes past the two lengths. -/
structure HttpIpcRequest.SameUpToCase (w w' : HttpIpcRequest) : Prop where
  header : w' = { w with host := w'.host, path := w'.path }
  host : ∀ i : Fin maxHttpHostBytes, i < w.hostLength.toNat →
    Ascii.toAsciiLowercase w'.host[i] = Ascii.toAsciiLowercase w.host[i]
  path : ∀ i : Fin maxHttpPathBytes, i < w.pathLength.toNat → w'.path[i] = w.path[i]

namespace HttpLease

/-- Re-encoding what a record decodes to gives the record back, up to the case of the host. -/
theorem sameUpToCase_wireOf {l : HttpLease} {w : HttpIpcRequest} (hw : w.WellFramed)
    (hc : w.capability = l.capability) (hg : w.generation = l.generation)
    (he : w.expiryEpoch = l.expiryEpoch) :
    w.SameUpToCase (l.wireOf w.hostSlice w.pathSlice w.budget w.sequence) where
  header := by
    have hhl : BitVec.ofNat 8 w.hostSlice.length = w.hostLength := by
      rw [hw.length_hostSlice, BitVec.ofNat_toNat, BitVec.setWidth_eq]
    have hpl : BitVec.ofNat 8 w.pathSlice.length = w.pathLength := by
      rw [hw.length_pathSlice, BitVec.ofNat_toNat, BitVec.setWidth_eq]
    obtain ⟨ver, qb, rb, ms, ys, cap, gen, seq, exp, hl, pl, res, host, path⟩ := w
    simp only [wireOf, HttpIpcRequest.budget, HttpIpcRequest.mk.injEq, hhl, hpl, true_and, and_true]
    exact ⟨hw.version.symm, hc.symm, hg.symm, he.symm, hw.reserved.symm⟩
  host := by
    intro i hi
    have hlen : i.val < (w.hostSlice.map Ascii.toAsciiLowercase).length := by
      rw [List.length_map, hw.length_hostSlice]
      exact hi
    have hget : (l.wireOf w.hostSlice w.pathSlice w.budget w.sequence).host[i]
        = Ascii.toAsciiLowercase w.host[i] := by
      show (pad _ _)[i.val] = _
      rw [getElem_pad i.isLt hlen, List.getElem_map]
      simp [HttpIpcRequest.hostSlice]
    rw [hget, Ascii.toAsciiLowercase_idem]
  path := by
    intro i hi
    have hlen : i.val < w.pathSlice.length := by
      rw [hw.length_pathSlice]
      exact hi
    show (pad _ _)[i.val] = _
    rw [getElem_pad i.isLt hlen]
    simp [HttpIpcRequest.pathSlice]

/-! ## A sample lease -/

/-- The bytes of `Slope.example`. -/
def sampleHost : List U8 := [0x53, 0x6c, 0x6f, 0x70, 0x65, 0x2e, 0x65, 0x78, 0x61, 0x6d, 0x70, 0x6c, 0x65]

def samplePath : List U8 := [0x2f, 0x76, 0x31]

def sampleBudget : HttpBudget := ⟨1024, 16 * 1024, 16, 1⟩

/-- The request for `https://Slope.example/v1`. -/
def sampleRequest : HttpsRequest := .canonical (.canonical sampleHost) samplePath sampleBudget

def sampleLease : HttpLease := ⟨7, 1, .canonical sampleHost, sampleBudget, 100⟩

def sampleWire : HttpIpcRequest := sampleLease.wireOf sampleHost samplePath sampleBudget 1

theorem sampleHost_acceptable : HttpsOrigin.acceptable sampleHost = true := by decide +kernel

theorem samplePath_acceptable : HttpsRequest.acceptable samplePath = true := by decide +kernel

theorem sampleRequest_made : sampleRequest.Made :=
  .inl ⟨sampleHost, _, samplePath, sampleBudget, HttpsOrigin.new_ok.mpr ⟨sampleHost_acceptable, rfl⟩,
    HttpsRequest.new_ok.mpr ⟨by decide, samplePath_acceptable, rfl⟩⟩

theorem sampleLease_permits : sampleLease.permits sampleRequest 9 = .ok () :=
  permits_ok.mpr ⟨by decide, by decide, rfl, by decide, by decide, by decide, by decide⟩

theorem sampleLease_authorizes : sampleLease.authorizeIpc sampleWire 9 = .ok sampleRequest :=
  authorizeIpc_ok.mpr ⟨⟨rfl, rfl, rfl, rfl⟩,
    request_wireOf sampleHost_acceptable samplePath_acceptable (by decide), sampleLease_permits⟩

/-- **Round trip.** A request that exists and is encoded under a lease decodes to itself and is authorised at
    the same epoch, with the sequence number it was given; conversely what a record is authorised as encodes
    back to that record, up to the letter case of its host and the bytes past its two lengths. -/
theorem ipc_round_trip (l : HttpLease) :
    (∀ (r : HttpsRequest) (e : U64) (s : U32) (w : HttpIpcRequest), r.Made →
      l.toIpcRequest r e s = .ok w →
        w.sequence = s ∧ w.request = .ok r ∧ l.authorizeIpc w e = .ok r) ∧
      (∀ (w : HttpIpcRequest) (e : U64) (r : HttpsRequest), l.authorizeIpc w e = .ok r →
        ∃ w', l.toIpcRequest r e w.sequence = .ok w' ∧ w.SameUpToCase w') := by
  constructor
  · intro r e s w hmade henc
    obtain ⟨host, path, budget, hh, hp, hb, rfl⟩ := hmade.canonical
    have hhl := (HttpsOrigin.length_le_of_acceptable hh).2
    have hpl := (HttpsRequest.length_le_of_acceptable hp).2
    have hpermit : l.permits (.canonical (.canonical host) path budget) e = .ok () := by
      cases h : l.permits (.canonical (.canonical host) path budget) e with
      | error err =>
          unfold toIpcRequest at henc
          rw [h] at henc
          cases henc
      | ok u => rfl
    rw [toIpcRequest_canonical hhl hpl hpermit] at henc
    obtain rfl := Except.ok.inj henc
    have hreq := request_wireOf (l := l) (s := s) hh hp hb
    exact ⟨rfl, hreq, authorizeIpc_ok.mpr ⟨⟨rfl, rfl, rfl, rfl⟩, hreq, hpermit⟩⟩
  · intro w e r hauth
    obtain ⟨⟨-, hc, hg, he⟩, hreq, hpermit⟩ := authorizeIpc_ok.mp hauth
    obtain ⟨hw, hh, hp, hb, rfl⟩ := HttpIpcRequest.request_ok.mp hreq
    have hhl := (HttpsOrigin.length_le_of_acceptable hh).2
    have hpl := (HttpsRequest.length_le_of_acceptable hp).2
    exact ⟨_, toIpcRequest_canonical hhl hpl hpermit, sameUpToCase_wireOf hw hc hg he⟩

/-- The round trip of the sample request under the sample lease, in both directions. -/
theorem ipc_round_trip_sample :
    sampleWire.request = .ok sampleRequest ∧ sampleLease.authorizeIpc sampleWire 9 = .ok sampleRequest ∧
      ∃ w', sampleLease.toIpcRequest sampleRequest 9 sampleWire.sequence = .ok w' ∧
        sampleWire.SameUpToCase w' := by
  have henc : sampleLease.toIpcRequest sampleRequest 9 1 = .ok sampleWire :=
    toIpcRequest_canonical (by decide) (by decide) sampleLease_permits
  obtain ⟨-, hreq, hauth⟩ :=
    (ipc_round_trip sampleLease).1 sampleRequest 9 1 sampleWire sampleRequest_made henc
  exact ⟨hreq, hauth, (ipc_round_trip sampleLease).2 sampleWire 9 sampleRequest hauth⟩

/-! ## Authority -/

/-- **Authorisation amplifies nothing.** Whatever a record contains, `authorize_ipc` stays in range; what it
    accepts names the lease's version, capability, generation and expiry, lies before the expiry, has the
    lease's origin, a valid budget within the lease's in all four fields, and exactly the record's path bytes,
    which form an acceptable path; and acceptance at an epoch implies the same acceptance at every earlier
    one. -/
theorem authorize_sound (l : HttpLease) (w : HttpIpcRequest) (e : U64) :
    l.authorizeIpc w e ≠ .error .outOfRange ∧
      ∀ r, l.authorizeIpc w e = .ok r →
        (w.version = httpIpcVersion ∧ w.capability = l.capability ∧ w.generation = l.generation ∧
          w.expiryEpoch = l.expiryEpoch) ∧
        e < l.expiryEpoch ∧
        r.origin = l.origin ∧ r.origin.hostBytes = l.origin.hostBytes ∧
        r.budget.isValid = true ∧
        (r.budget.requestBytes ≤ l.budget.requestBytes ∧ r.budget.responseBytes ≤ l.budget.responseBytes ∧
          r.budget.maxSegments ≤ l.budget.maxSegments ∧
          r.budget.yieldEverySegments ≤ l.budget.yieldEverySegments) ∧
        (∃ path, r.pathBytes = .ok path ∧ path = w.path.toList.take w.pathLength.toNat ∧
          path.head? = some HttpsRequest.slash ∧ 1 ≤ path.length ∧ path.length ≤ maxHttpPathBytes ∧
          ∀ byte ∈ path, Ascii.isAsciiGraphic byte = true ∧ byte ≠ HttpsRequest.numberSign) ∧
        ∀ e' < e, l.authorizeIpc w e' = .ok r := by
  constructor
  · unfold authorizeIpc
    split_ifs with hhead
    · simp [fail]
    · cases hreq : w.request with
      | error fault =>
          rintro ⟨⟩
          exact w.request_inRange hreq
      | ok r =>
          show (match l.permits r e with | .error err => fail err | .ok () => pure r) ≠ _
          cases l.permits r e with
          | error err => simp [fail]
          | ok u => simp [pure, Except.pure]
  · intro r hauth
    obtain ⟨hhead, hreq, hpermit⟩ := authorizeIpc_ok.mp hauth
    obtain ⟨hlive, hexp, ho, hq, hrb, hms, hys⟩ := permits_ok.mp hpermit
    have hrest : ∀ e' < e, l.authorizeIpc w e' = .ok r := by
      intro e' he'
      have hpermit' : l.permits r e' = .ok () :=
        permits_ok.mpr ⟨hlive, BitVec.lt_trans he' hexp, ho, hq, hrb, hms, hys⟩
      exact authorizeIpc_ok.mpr ⟨hhead, hreq, hpermit'⟩
    obtain ⟨hw, hh, hp, hb, hr⟩ := HttpIpcRequest.request_ok.mp hreq
    have hlen := HttpsRequest.length_le_of_acceptable hp
    have hpath : r.pathBytes = .ok w.pathSlice := by
      rw [hr]
      exact HttpsRequest.pathBytes_canonical hlen.2
    have hbudget : r.budget.isValid = true := by
      rw [hr]
      exact hb
    simp only [HttpsRequest.acceptable, Bool.and_eq_true, beq_iff_eq, List.all_eq_true, bne_iff_ne] at hp
    exact ⟨hhead, hexp, ho, by rw [ho], hbudget, ⟨hq, hrb, hms, hys⟩,
      ⟨w.pathSlice, hpath, rfl, hp.1.1, hlen.1, hlen.2, hp.2⟩, hrest⟩

/-- The sample lease, as the broker mints it, accepts its own request at epoch 9, and so at epoch 3. -/
theorem authorize_sound_sample :
    fromBroker 7 1 (.canonical sampleHost) sampleBudget 100 = .ok sampleLease ∧
      sampleLease.authorizeIpc sampleWire 3 = .ok sampleRequest := by
  have hminted : fromBroker 7 1 (.canonical sampleHost) sampleBudget 100 = .ok sampleLease :=
    if_neg (by decide)
  obtain ⟨-, -, -, -, -, -, -, hearlier⟩ :=
    (authorize_sound sampleLease sampleWire 9).2 sampleRequest sampleLease_authorizes
  exact ⟨hminted, hearlier 3 (by decide)⟩

end HttpLease

end Slope.Hypermedia
