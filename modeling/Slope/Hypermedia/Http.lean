import Slope.Lib.Word

/-!
# `Hypermedia.Http` — the HTTPS wire record

`HttpIpcRequest` is the fixed-layout record a client copies through a shared mapping. Every field is kept,
the private and reserved ones included: two records are the same request exactly when all of them agree.
-/

namespace Slope.Hypermedia

def maxHttpHostBytes : Nat := 48
def maxHttpPathBytes : Nat := 128
def httpIpcVersion : U16 := 1

/-- Fixed-layout Argus request envelope. -/
structure HttpIpcRequest where
  version : U16
  requestBytes : U16
  responseBytes : U16
  maxSegments : U8
  yieldEverySegments : U8
  capability : U64
  generation : U32
  sequence : U32
  expiryEpoch : U64
  hostLength : U8
  pathLength : U8
  reserved : Vector U8 2
  host : Vector U8 maxHttpHostBytes
  path : Vector U8 maxHttpPathBytes
deriving DecidableEq

/-- The all-zero record. -/
def HttpIpcRequest.empty : HttpIpcRequest where
  version := 0
  requestBytes := 0
  responseBytes := 0
  maxSegments := 0
  yieldEverySegments := 0
  capability := 0
  generation := 0
  sequence := 0
  expiryEpoch := 0
  hostLength := 0
  pathLength := 0
  reserved := Vector.replicate 2 0
  host := Vector.replicate maxHttpHostBytes 0
  path := Vector.replicate maxHttpPathBytes 0

end Slope.Hypermedia
