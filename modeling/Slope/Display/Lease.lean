import Slope.Lib.Word

/-!
# `Display.Lease` — the geometry of display and surface leases

A row of a BGRA frame takes four bytes a pixel. The lease validators compute it with a saturating product and
`present_bgra8888` with a checked one. The two agree below `2 ^ 30` pixels; from there on the saturated product
is the largest 32-bit number, which a lease of that very pitch reaches, though its rows are longer.
-/

namespace Slope.Display

open Word

def waylandWireVersion : U16 := 1

def bgra8888BytesPerPixel : U32 := 4

/-! ## The records -/

inductive PixelFormat where
  | bgra8888
deriving DecidableEq

/-- `format as u16` -/
def PixelFormat.code : PixelFormat → U16
  | .bgra8888 => 1

structure DisplayLease where
  version : U16
  format : PixelFormat
  width : U32
  height : U32
  pitch : U32
  generation : U64
  capability : U64
deriving DecidableEq

def DisplayLease.valid (d : DisplayLease) : Bool :=
  d.version == waylandWireVersion
    && d.format.code == PixelFormat.bgra8888.code
    && d.width != 0
    && d.height != 0
    && saturatingMul d.width 4 ≤ d.pitch
    && d.generation != 0
    && d.capability != 0

structure SurfaceLease where
  surfaceId : U32
  bufferId : U32
  x : BitVec 32
  y : BitVec 32
  width : U32
  height : U32
  stride : U32
  generation : U64
  capability : U64
deriving DecidableEq

def SurfaceLease.validFor (s : SurfaceLease) (display : DisplayLease) : Bool :=
  display.valid
    && s.surfaceId != 0
    && s.bufferId != 0
    && s.width != 0
    && s.height != 0
    && saturatingMul s.width 4 ≤ s.stride
    && s.generation == display.generation
    && s.capability != 0

/-! ## Presentation -/

/-- `SyscallError`, by its number. -/
abbrev SyscallError := Int

/-- The checks of `present_bgra8888`, in its order; the row product is computed only for a frame that is not
    empty. A `usize` has 64 bits, so the conversion of the frame size never fails. -/
def checkGeometry (frameLen : Nat) (width height pitch : U32) : Except SyscallError Unit := do
  let required ← okOr (checkedMul (pitch.setWidth 64 : U64) (height.setWidth 64)) (-22)
  if width = 0 ∨ height = 0 then .error (-22)
  else
    let rowBytes ← okOr (checkedMul width bgra8888BytesPerPixel) (-22)
    if pitch < rowBytes ∨ frameLen ≠ required.toNat then .error (-22) else .ok ()

/-- The frame is the `frame.length` bytes at `framePtr`; `syscall` is the kernel's answer to `SYS_DISP_PRESENT`
    with the given arguments, and an error on a host build. -/
def presentBgra8888 (syscall : List U64 → Except SyscallError U64) (framePtr : U64) (frame : List U8)
    (width height pitch : U32) : Except SyscallError U64 := do
  checkGeometry frame.length width height pitch
  syscall [framePtr, width.setWidth 64, height.setWidth 64, pitch.setWidth 64, 0, 0]

/-! ## Rows -/

/-- A row of `width` pixels fits in `stride` bytes. -/
def RowFits (width stride : U32) : Prop := 4 * width.toNat ≤ stride.toNat

/-- The geometry of the gap: the row product saturates, and `stride` is as large as a 32-bit number gets. -/
def RowSaturates (width stride : U32) : Prop := 2 ^ 30 ≤ width.toNat ∧ stride.toNat = 2 ^ 32 - 1

/-- **The saturating check, exactly.** -/
theorem saturatingMul_le_iff {width stride : U32} :
    saturatingMul width 4 ≤ stride ↔ RowFits width stride ∨ RowSaturates width stride := by
  have h4 : (4 : U32).toNat = 4 := rfl
  have hstride := stride.isLt
  unfold RowFits RowSaturates
  rw [BitVec.le_def, toNat_saturatingMul, h4]
  omega

theorem not_rowFits_of_saturates {width stride : U32} (h : RowSaturates width stride) :
    ¬ RowFits width stride := by
  obtain ⟨hwidth, hstride⟩ := h
  unfold RowFits
  omega

/-- **The checks of `present_bgra8888`, exactly.** -/
theorem checkGeometry_ok {frameLen : Nat} {width height pitch : U32} :
    checkGeometry frameLen width height pitch = .ok () ↔
      width ≠ 0 ∧ height ≠ 0 ∧ RowFits width pitch ∧ frameLen = pitch.toNat * height.toNat := by
  have h4 : bgra8888BytesPerPixel.toNat = 4 := rfl
  have hp := pitch.isLt
  -- a 32-bit pitch times a 32-bit height fits in 64 bits
  have hprod : pitch.toNat * height.toNat < 2 ^ 64 :=
    Nat.lt_of_lt_of_le (Nat.mul_lt_mul'' hp height.isLt) (by decide)
  have hzp := toNat_zext (by decide : 32 ≤ 64) pitch
  have hzh := toNat_zext (by decide : 32 ≤ 64) height
  obtain ⟨required, hreq⟩ : ∃ required : U64,
      checkedMul (pitch.setWidth 64) (height.setWidth 64) = some required :=
    ⟨_, checkedMul_of_lt (by rw [hzp, hzh]; exact hprod)⟩
  have hlen : required.toNat = pitch.toNat * height.toNat := by
    rw [checkedMul_eq_some.mp hreq, hzp, hzh]
  unfold checkGeometry RowFits
  rw [hreq]
  dsimp only [okOr, bind, Except.bind]
  rw [guard_ok, hlen]
  cases hrow : checkedMul width bgra8888BytesPerPixel with
  | none =>
      rw [checkedMul_eq_none, h4] at hrow
      constructor
      · rintro ⟨-, h⟩
        cases h
      · rintro ⟨-, -, hfits, -⟩
        omega
  | some rowBytes =>
      rw [checkedMul_eq_some, h4] at hrow
      dsimp only
      rw [guard_ok, not_or, not_or, ne_eq, Decidable.not_not, BitVec.not_lt, BitVec.le_def, hrow, Nat.mul_comm]
      simp only [and_true, and_assoc]

theorem ne_zero_of_saturates {width stride : U32} (h : RowSaturates width stride) : width ≠ 0 := by
  have hwidth := h.1
  rw [Word.ne_zero_iff]
  omega

/-! ## What the validators accept -/

/-- Every check of `valid` but those on the width. -/
structure DisplayLease.Stamped (d : DisplayLease) : Prop where
  version : d.version = waylandWireVersion
  height : d.height ≠ 0
  generation : d.generation ≠ 0
  capability : d.capability ≠ 0

theorem DisplayLease.valid_iff {d : DisplayLease} :
    d.valid = true ↔
      d.Stamped ∧ d.width ≠ 0 ∧ (RowFits d.width d.pitch ∨ RowSaturates d.width d.pitch) := by
  have hformat : d.format.code = PixelFormat.bgra8888.code := by
    cases d.format with
    | bgra8888 => rfl
  unfold DisplayLease.valid
  simp only [Bool.and_eq_true, beq_iff_eq, bne_iff_ne, decide_eq_true_eq, saturatingMul_le_iff, hformat]
  constructor
  · rintro ⟨⟨⟨⟨⟨⟨hv, -⟩, hw⟩, hh⟩, hrow⟩, hg⟩, hc⟩
    exact ⟨⟨hv, hh, hg, hc⟩, hw, hrow⟩
  · rintro ⟨⟨hv, hh, hg, hc⟩, hw, hrow⟩
    exact ⟨⟨⟨⟨⟨⟨hv, trivial⟩, hw⟩, hh⟩, hrow⟩, hg⟩, hc⟩

/-- Every check of `valid_for` but those on the width. -/
structure SurfaceLease.Stamped (s : SurfaceLease) (display : DisplayLease) : Prop where
  leased : display.valid = true
  surfaceId : s.surfaceId ≠ 0
  bufferId : s.bufferId ≠ 0
  height : s.height ≠ 0
  generation : s.generation = display.generation
  capability : s.capability ≠ 0

theorem SurfaceLease.validFor_iff {s : SurfaceLease} {display : DisplayLease} :
    s.validFor display = true ↔
      s.Stamped display ∧ s.width ≠ 0 ∧ (RowFits s.width s.stride ∨ RowSaturates s.width s.stride) := by
  unfold SurfaceLease.validFor
  simp only [Bool.and_eq_true, beq_iff_eq, bne_iff_ne, decide_eq_true_eq, saturatingMul_le_iff]
  constructor
  · rintro ⟨⟨⟨⟨⟨⟨⟨hd, hs⟩, hb⟩, hw⟩, hh⟩, hrow⟩, hg⟩, hc⟩
    exact ⟨⟨hd, hs, hb, hh, hg, hc⟩, hw, hrow⟩
  · rintro ⟨⟨hd, hs, hb, hh, hg, hc⟩, hw, hrow⟩
    exact ⟨⟨⟨⟨⟨⟨⟨hd, hs⟩, hb⟩, hw⟩, hh⟩, hrow⟩, hg⟩, hc⟩

/-- A check of this shape lets a row through that does not fit exactly when everything else passes and the row
    saturates. -/
theorem accepts_fitting_iff {accepts stamped : Prop} {width stride : U32}
    (h : accepts ↔ stamped ∧ width ≠ 0 ∧ (RowFits width stride ∨ RowSaturates width stride)) :
    (accepts → RowFits width stride) ↔ ¬ (stamped ∧ RowSaturates width stride) := by
  rw [h]
  constructor
  · rintro himp ⟨hstamped, hsat⟩
    exact not_rowFits_of_saturates hsat (himp ⟨hstamped, ne_zero_of_saturates hsat, Or.inr hsat⟩)
  · rintro hnot ⟨hstamped, -, hrow⟩
    exact hrow.resolve_right fun hsat => hnot ⟨hstamped, hsat⟩

/-! ## Validated geometry and presentation -/

/-- A frame of `pitch * height` bytes passes every check of `present_bgra8888`: whatever the kernel answers is the
    answer. -/
def DisplayLease.Presentable (d : DisplayLease) : Prop :=
  ∀ (syscall : List U64 → Except SyscallError U64) (framePtr : U64) (frame : List U8),
    frame.length = d.pitch.toNat * d.height.toNat →
    presentBgra8888 syscall framePtr frame d.width d.height d.pitch
      = syscall [framePtr, d.width.setWidth 64, d.height.setWidth 64, d.pitch.setWidth 64, 0, 0]

theorem DisplayLease.presentable_iff {d : DisplayLease} :
    d.Presentable ↔ d.width ≠ 0 ∧ d.height ≠ 0 ∧ RowFits d.width d.pitch := by
  have hgeometry : ∀ frameLen, frameLen = d.pitch.toNat * d.height.toNat →
      (checkGeometry frameLen d.width d.height d.pitch = .ok () ↔
        d.width ≠ 0 ∧ d.height ≠ 0 ∧ RowFits d.width d.pitch) := by
    intro frameLen hlen
    rw [checkGeometry_ok]
    simp only [hlen, and_true]
  unfold DisplayLease.Presentable presentBgra8888
  constructor
  · intro h
    -- a kernel that accepts everything shows that the checks passed
    have hok := h (fun _ => .ok 0) 0 (List.replicate (d.pitch.toNat * d.height.toNat) 0)
      List.length_replicate
    rw [List.length_replicate] at hok
    rw [← hgeometry _ rfl]
    cases hcheck : checkGeometry (d.pitch.toNat * d.height.toNat) d.width d.height d.pitch with
    | error fault => rw [hcheck] at hok; cases hok
    | ok u => rfl
  · intro h syscall framePtr frame hlen
    rw [(hgeometry frame.length hlen).mpr h]
    rfl

/-- **Validated leases and their rows.** For every display and every surface lease: being accepted implies that the
    rows fit, exactly when the lease is not one that passes every other check with a saturated row; and a valid
    display lease is presentable under the same condition. -/
theorem validated_rows_iff (d : DisplayLease) (s : SurfaceLease) :
    ((d.valid = true → 4 * d.width.toNat ≤ d.pitch.toNat) ↔
      ¬ (d.Stamped ∧ RowSaturates d.width d.pitch)) ∧
    ((s.validFor d = true → 4 * s.width.toNat ≤ s.stride.toNat) ↔
      ¬ (s.Stamped d ∧ RowSaturates s.width s.stride)) ∧
    ((d.valid = true → d.Presentable) ↔ ¬ (d.Stamped ∧ RowSaturates d.width d.pitch)) := by
  refine ⟨accepts_fitting_iff DisplayLease.valid_iff, accepts_fitting_iff SurfaceLease.validFor_iff, ?_⟩
  rw [← accepts_fitting_iff DisplayLease.valid_iff]
  constructor
  · intro himp hvalid
    exact (DisplayLease.presentable_iff.mp (himp hvalid)).2.2
  · intro himp hvalid
    obtain ⟨hstamped, hwidth, -⟩ := DisplayLease.valid_iff.mp hvalid
    exact DisplayLease.presentable_iff.mpr ⟨hwidth, hstamped.height, himp hvalid⟩

/-! ### Leases whose rows do not fit -/

def wideDisplay : DisplayLease where
  version := waylandWireVersion
  format := .bgra8888
  width := 0x40000000
  height := 1
  pitch := 0xffffffff
  generation := 7
  capability := 11

def wideSurface : SurfaceLease where
  surfaceId := 1
  bufferId := 2
  x := 0
  y := 0
  width := 0x40000000
  height := 1
  stride := 0xffffffff
  generation := 7
  capability := 12

/-- **Accepted and too wide.** Rows of `2 ^ 30` pixels take `2 ^ 32` bytes; both validators accept them with a
    stride of `2 ^ 32 - 1`, and `present_bgra8888` refuses the geometry. -/
theorem wide_leases_accepted :
    wideDisplay.valid = true ∧ wideDisplay.pitch.toNat < 4 * wideDisplay.width.toNat ∧
    wideSurface.validFor wideDisplay = true ∧ wideSurface.stride.toNat < 4 * wideSurface.width.toNat ∧
    checkGeometry (wideDisplay.pitch.toNat * wideDisplay.height.toNat) wideDisplay.width wideDisplay.height
      wideDisplay.pitch = .error (-22) :=
  ⟨by decide, by decide, by decide, by decide, rfl⟩

end Slope.Display
