import Slope.Hypermedia.Http

/-!
# `Hypermedia.Endpoint` — the Argus endpoint lease and its session gate

The broker-side admission state of one Argus-to-Hermes endpoint. `prepare` turns a wire request into an
envelope bound to the lease, `commit` admits an envelope, `complete` closes the request in flight, `revoke`
ends the session. Methods that take `&mut self` return the session they leave together with their result.
-/

namespace Slope.Hypermedia

def argusEndpointVersion : U16 := 1
def argusEndpointOwner : U8 := 3

inductive EndpointError where
  | invalidLease
  | wrongOwner
  | expired
  | revoked
  | invalidRequest
  | wrongEndpoint
  | wrongMapping
  | wrongGeneration
  | sequence
  | busy
  | notInFlight
deriving DecidableEq

/-- Authority for one endpoint and its retained shared mapping. All fields are public in the source. -/
structure ArgusEndpointLease where
  version : U16
  owner : U8
  reserved : U8
  endpointCapability : U64
  mappingCapability : U64
  generation : U32
  mappingGeneration : U32
  expiryEpoch : U64
deriving DecidableEq

/-- Envelope copied through the capability-scoped mapping. All fields are public in the source. -/
structure ArgusIpcRequest where
  version : U16
  reserved : U16
  endpointCapability : U64
  mappingCapability : U64
  generation : U32
  mappingGeneration : U32
  request : HttpIpcRequest
deriving DecidableEq

/-! ## Lease -/

namespace ArgusEndpointLease

/-- Imports the endpoint and mapping authorities returned by the broker. -/
def fromBroker (endpointCapability mappingCapability : U64) (generation mappingGeneration : U32)
    (expiryEpoch : U64) : Except EndpointError ArgusEndpointLease :=
  if endpointCapability = 0 ∨ mappingCapability = 0 ∨ generation = 0 ∨ mappingGeneration = 0
      ∨ expiryEpoch = 0 then
    .error .invalidLease
  else
    .ok { version := argusEndpointVersion, owner := argusEndpointOwner, reserved := 0,
          endpointCapability, mappingCapability, generation, mappingGeneration, expiryEpoch }

def validFor (l : ArgusEndpointLease) (currentEpoch : U64) : Bool :=
  l.version == argusEndpointVersion
    && l.owner == argusEndpointOwner
    && l.reserved == 0
    && l.endpointCapability != 0
    && l.mappingCapability != 0
    && l.generation != 0
    && l.mappingGeneration != 0
    && decide (currentEpoch < l.expiryEpoch)

def authorizeRequest (l : ArgusEndpointLease) (request : HttpIpcRequest) (currentEpoch : U64) :
    Except EndpointError ArgusIpcRequest :=
  if l.version ≠ argusEndpointVersion ∨ l.reserved ≠ 0 then .error .invalidLease
  else if l.owner ≠ argusEndpointOwner then .error .wrongOwner
  else if l.expiryEpoch ≤ currentEpoch then .error .expired
  else if request.version ≠ httpIpcVersion ∨ request.sequence = 0 then .error .invalidRequest
  else
    .ok { version := argusEndpointVersion, reserved := 0,
          endpointCapability := l.endpointCapability, mappingCapability := l.mappingCapability,
          generation := l.generation, mappingGeneration := l.mappingGeneration, request }

end ArgusEndpointLease

/-! ## Session -/

structure ArgusEndpointSession where
  lease : ArgusEndpointLease
  nextSequence : U32
  inFlight : Bool
  revoked : Bool
deriving DecidableEq

namespace ArgusEndpointSession

def new (lease : ArgusEndpointLease) : ArgusEndpointSession where
  lease
  nextSequence := 1
  inFlight := false
  revoked := false

def prepare (s : ArgusEndpointSession) (request : HttpIpcRequest) (currentEpoch : U64) :
    Except EndpointError ArgusIpcRequest :=
  if s.revoked then .error .revoked
  else if s.inFlight then .error .busy
  else if request.sequence ≠ s.nextSequence then .error .sequence
  else s.lease.authorizeRequest request currentEpoch

def validateEnvelope (s : ArgusEndpointSession) (envelope : ArgusIpcRequest) :
    Except EndpointError Unit :=
  if envelope.version ≠ argusEndpointVersion ∨ envelope.reserved ≠ 0 then .error .invalidRequest
  else if envelope.endpointCapability ≠ s.lease.endpointCapability then .error .wrongEndpoint
  else if envelope.mappingCapability ≠ s.lease.mappingCapability then .error .wrongMapping
  else if envelope.generation ≠ s.lease.generation then .error .wrongGeneration
  else if envelope.mappingGeneration ≠ s.lease.mappingGeneration then .error .wrongGeneration
  else if envelope.request.sequence ≠ s.nextSequence then .error .sequence
  else .ok ()

def commit (s : ArgusEndpointSession) (envelope : ArgusIpcRequest) :
    Except EndpointError Unit × ArgusEndpointSession :=
  if s.revoked then (.error .revoked, s)
  else
    -- the envelope is validated before the session is found busy
    match s.validateEnvelope envelope with
    | .error err => (.error err, s)
    | .ok () =>
      if s.inFlight then (.error .busy, s) else (.ok (), { s with inFlight := true })

/-- `next_sequence` moves to its wrapping successor, with `0` skipped. -/
def complete (s : ArgusEndpointSession) (sequence : U32) :
    Except EndpointError Unit × ArgusEndpointSession :=
  if !s.inFlight then (.error .notInFlight, s)
  else if sequence ≠ s.nextSequence then (.error .sequence, s)
  else (.ok (), { s with inFlight := false, nextSequence := Word.umax (s.nextSequence + 1) 1 })

def revoke (s : ArgusEndpointSession) : ArgusEndpointSession :=
  { s with revoked := true, inFlight := false }

/-! ## What a successful call says about the session -/

/-- An envelope passes validation exactly when its outer fields repeat the lease and its request carries
    the session's next sequence number. -/
theorem validateEnvelope_ok {s : ArgusEndpointSession} {e : ArgusIpcRequest} :
    s.validateEnvelope e = .ok () ↔
      e = { version := argusEndpointVersion, reserved := 0,
            endpointCapability := s.lease.endpointCapability,
            mappingCapability := s.lease.mappingCapability, generation := s.lease.generation,
            mappingGeneration := s.lease.mappingGeneration, request := e.request } ∧
      e.request.sequence = s.nextSequence := by
  obtain ⟨ver, res, ec, mc, g, mg, req⟩ := e
  simp only [validateEnvelope, ArgusIpcRequest.mk.injEq, and_true]
  grind

theorem commit_ok {s s' : ArgusEndpointSession} {e : ArgusIpcRequest} :
    s.commit e = (.ok (), s') ↔
      s.revoked = false ∧ s.inFlight = false ∧ s.validateEnvelope e = .ok () ∧
        s' = { s with inFlight := true } := by
  unfold commit
  cases hr : s.revoked <;> cases hv : s.validateEnvelope e <;> cases hf : s.inFlight <;>
    simp [eq_comm]

theorem commit_error {s s' : ArgusEndpointSession} {e : ArgusIpcRequest} {err : EndpointError}
    (h : s.commit e = (.error err, s')) : s' = s := by
  unfold commit at h
  grind

theorem complete_ok {s s' : ArgusEndpointSession} {n : U32} :
    s.complete n = (.ok (), s') ↔
      s.inFlight = true ∧ n = s.nextSequence ∧
        s' = { s with inFlight := false, nextSequence := Word.umax (s.nextSequence + 1) 1 } := by
  unfold complete
  cases hf : s.inFlight <;> by_cases hn : n = s.nextSequence <;> simp [hn, eq_comm]

theorem complete_error {s s' : ArgusEndpointSession} {n : U32} {err : EndpointError}
    (h : s.complete n = (.error err, s')) : s' = s := by
  unfold complete at h
  grind

/-- The successor computed by `complete` is never `0`. -/
theorem nextSequence_succ_ne_zero (n : U32) : Word.umax (n + 1) 1 ≠ 0 := by
  intro h
  have hm := congrArg BitVec.toNat h
  rw [Word.toNat_umax] at hm
  have : (1 : U32).toNat = 1 := rfl
  have : (0 : U32).toNat = 0 := rfl
  omega

end ArgusEndpointSession

end Slope.Hypermedia
