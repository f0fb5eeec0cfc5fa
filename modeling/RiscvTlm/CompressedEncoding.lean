import RiscvTlm.Decode

/-!
# The compressed accessors on encoded halfwords

What the accessors of the C extension read from a fetched word whose low halfword has a given
format. The immediates come back as the architectural number: a placed field, sign-extended where
the format says so.
-/

namespace RiscvTlm

open Isa BitField CExtension

variable {w : BitVec 32} {f3 : BitVec 3} {q : BitVec 2}

/-- The number of a short register field, as the accessors compute it. -/
@[simp] theorem toNat_add_eight (r : RegC) :
    (r.toNat + 8) % 18446744073709551616 = r.reg.toNat := by
  have hr := r.isLt
  rw [RegC.reg, BitVec.toNat_add, BitVec.toNat_setWidth_of_le (by decide),
    show (8 : BitVec 5).toNat = 8 from rfl]
  omega

/-- The sign lines complete a field whose top bit is copied to the bits above it. -/
theorem extendSign_place {k pos p : ℕ} {a : BitVec (k + 1)} {aux ones : BitVec 32}
    (haux : aux = place 32 pos a) (hb : bit w 12 = place 64 0 (a.extractLsb' k 1))
    (hones : ones <<< p = BitVec.allOnes 32 <<< p) (hp : p = pos + k ∨ p = pos + k + 1) :
    extendSign w aux ones p = (place (pos + k + 1) pos a).signExtend 32 := by
  subst haux
  rw [extendSign, hb, hones]
  simp only [show (1 : BitVec 64) = 1#64 from rfl, place_bit_eq_one]
  obtain rfl | rfl := hp
  · exact (signExtend_place_top pos a).symm
  · exact (signExtend_place pos a).symm

theorem getImmADDI_of_fields {imm : BitVec 6}
    (hb : bit w 12 = place 64 0 (imm.extractLsb' 5 1))
    (haux : field w 12 12 5 ||| field w 6 2 0 = place 32 0 imm) :
    getImmADDI w = imm.signExtend 32 := by
  have hones : (0b11111111111111111111111111 : BitVec 32) <<< 6 = BitVec.allOnes 32 <<< 6 := by
    decide
  have he := extendSign_place haux hb hones (by decide)
  rw [getImmADDI, he]
  simp [place]

/-! ## Format CI -/

section FormatCI

variable {rd : Reg} {imm : BitVec 6}
  (h : w.setWidth 16 = encodeC f3 (fieldsCI rd imm) q)

include h

theorem getRd_fieldsCI : ExtensionBase.getRd w = rd.toNat := by
  simp [ExtensionBase.getRd, range_of_setWidth_eq h, encodeC, fieldsCI]

theorem getRs1_fieldsCI : CExtension.getRs1 w = rd.toNat := by
  simp [CExtension.getRs1, range_of_setWidth_eq h, encodeC, fieldsCI]

theorem getImmADDI_fieldsCI : getImmADDI w = imm.signExtend 32 := by
  have hb : bit w 12 = place 64 0 (imm.extractLsb' 5 1) := by
    simp [range_of_setWidth_eq h, encodeC, fieldsCI]
  have haux : field w 12 12 5 ||| field w 6 2 0 = place 32 0 imm := by
    simp [field, range_of_setWidth_eq h, encodeC, fieldsCI, place_or_place]
  exact getImmADDI_of_fields hb haux

theorem getImmLUI_fieldsCI : getImmLUI w = (place 18 12 imm).signExtend 32 := by
  have hb : bit w 12 = place 64 0 (imm.extractLsb' 5 1) := by
    simp [range_of_setWidth_eq h, encodeC, fieldsCI]
  have haux : field w 12 12 17 ||| field w 6 2 12 = place 32 12 imm := by
    simp [field, range_of_setWidth_eq h, encodeC, fieldsCI, place_or_place]
  exact extendSign_place haux hb (by decide) (by decide)

end FormatCI

/-! ## Format CR -/

section FormatCR

variable {f1 : BitVec 1} {rd rs2 : Reg}
  (h : w.setWidth 16 = encodeC f3 (fieldsCR f1 rd rs2) q)

include h

theorem getRd_fieldsCR : ExtensionBase.getRd w = rd.toNat := by
  simp [ExtensionBase.getRd, range_of_setWidth_eq h, encodeC, fieldsCR]

theorem getRs1_fieldsCR : CExtension.getRs1 w = rd.toNat := by
  simp [CExtension.getRs1, range_of_setWidth_eq h, encodeC, fieldsCR]

theorem getRs2_fieldsCR : CExtension.getRs2 w = rs2.toNat := by
  simp [CExtension.getRs2, range_of_setWidth_eq h, encodeC, fieldsCR]

end FormatCR

/-! ## Formats CL and CS -/

section FormatCLW

variable {rs1 r : RegC} {uimm : BitVec 5}
  (h : w.setWidth 16 = encodeC f3 (fieldsCLW rs1 uimm r) q)

include h

theorem getRs1p_fieldsCLW : getRs1p w = rs1.reg.toNat := by
  simp [getRs1p, range_of_setWidth_eq h, encodeC, fieldsCLW]

theorem getRdp_fieldsCLW : getRdp w = r.reg.toNat := by
  simp [getRdp, range_of_setWidth_eq h, encodeC, fieldsCLW]

theorem getRs2p_fieldsCLW : getRs2p w = r.reg.toNat := by
  simp [getRs2p, range_of_setWidth_eq h, encodeC, fieldsCLW]

theorem getImmL_fieldsCLW : getImmL w = place 32 2 uimm := by
  have hm : place 32 3 (uimm.extractLsb' 1 3) ||| place 32 2 (uimm.extractLsb' 0 1) |||
      place 32 6 (uimm.extractLsb' 4 1) = place 32 2 uimm := by
    rw [BitVec.or_comm, ← BitVec.or_assoc]
    simp [place_or_place]
  simp [getImmL, field, range_of_setWidth_eq h, encodeC, fieldsCLW, hm]

end FormatCLW

/-! ## Formats CL and CS of doublewords -/

section FormatCLD

variable {rs1 r : RegC} {uimm : BitVec 5}
  (h : w.setWidth 16 = encodeC f3 (fieldsCLD rs1 uimm r) q)

include h

theorem getRs1p_fieldsCLD : getRs1p w = rs1.reg.toNat := by
  simp [getRs1p, range_of_setWidth_eq h, encodeC, fieldsCLD]

theorem getRdp_fieldsCLD : getRdp w = r.reg.toNat := by
  simp [getRdp, range_of_setWidth_eq h, encodeC, fieldsCLD]

theorem getRs2p_fieldsCLD : getRs2p w = r.reg.toNat := by
  simp [getRs2p, range_of_setWidth_eq h, encodeC, fieldsCLD]

theorem getImmCL_fieldsCLD : getImmCL w = place 32 3 uimm := by
  have hm : place 32 3 (uimm.extractLsb' 0 3) ||| place 32 6 (uimm.extractLsb' 3 2) =
      place 32 3 uimm := by
    rw [BitVec.or_comm]
    simp [place_or_place]
  simp [getImmCL, field, range_of_setWidth_eq h, encodeC, fieldsCLD, hm]

end FormatCLD

/-! ## Format CJ -/

section FormatCJ

variable {offset : BitVec 11}
  (h : w.setWidth 16 = encodeC f3 (fieldsCJ offset) q)

include h

theorem getImmJ_fieldsCJ : getImmJ w = (place 12 1 offset).signExtend 32 := by
  have hb : bit w 12 = place 64 0 (offset.extractLsb' 10 1) := by
    simp [range_of_setWidth_eq h, encodeC, fieldsCJ]
  have hm :
      place 32 11 (offset.extractLsb' 10 1) ||| place 32 4 (offset.extractLsb' 3 1) |||
      place 32 9 (offset.extractLsb' 8 1) ||| place 32 8 (offset.extractLsb' 7 1) |||
      place 32 10 (offset.extractLsb' 9 1) ||| place 32 6 (offset.extractLsb' 5 1) |||
      place 32 7 (offset.extractLsb' 6 1) ||| place 32 1 (offset.extractLsb' 0 3) |||
      place 32 5 (offset.extractLsb' 4 1) =
        place 32 1 offset := by
    calc _ =
        place 32 11 (offset.extractLsb' 10 1) ||| place 32 10 (offset.extractLsb' 9 1) |||
        place 32 9 (offset.extractLsb' 8 1) ||| place 32 8 (offset.extractLsb' 7 1) |||
        place 32 7 (offset.extractLsb' 6 1) ||| place 32 6 (offset.extractLsb' 5 1) |||
        place 32 5 (offset.extractLsb' 4 1) ||| place 32 4 (offset.extractLsb' 3 1) |||
        place 32 1 (offset.extractLsb' 0 3) := by
          ac_rfl
      _ = place 32 1 offset := by simp [place_or_place]
  refine extendSign_place ?_ hb (by decide) (by decide)
  simp [field, range_of_setWidth_eq h, encodeC, fieldsCJ, hm]

end FormatCJ

/-! ## Format CB -/

section FormatCB

variable {rs1 : RegC} {offset : BitVec 8}
  (h : w.setWidth 16 = encodeC f3 (fieldsCB rs1 offset) q)

include h

theorem getRs1p_fieldsCB : getRs1p w = rs1.reg.toNat := by
  simp [getRs1p, range_of_setWidth_eq h, encodeC, fieldsCB]

theorem getImmCB_fieldsCB : getImmCB w = (place 9 1 offset).signExtend 32 := by
  have hb : bit w 12 = place 64 0 (offset.extractLsb' 7 1) := by
    simp [range_of_setWidth_eq h, encodeC, fieldsCB]
  have hm :
      place 32 8 (offset.extractLsb' 7 1) ||| place 32 4 (offset.extractLsb' 3 1) |||
      place 32 3 (offset.extractLsb' 2 1) ||| place 32 7 (offset.extractLsb' 6 1) |||
      place 32 6 (offset.extractLsb' 5 1) ||| place 32 2 (offset.extractLsb' 1 1) |||
      place 32 1 (offset.extractLsb' 0 1) ||| place 32 5 (offset.extractLsb' 4 1) =
        place 32 1 offset := by
    calc _ =
        place 32 8 (offset.extractLsb' 7 1) ||| place 32 7 (offset.extractLsb' 6 1) |||
        place 32 6 (offset.extractLsb' 5 1) ||| place 32 5 (offset.extractLsb' 4 1) |||
        place 32 4 (offset.extractLsb' 3 1) ||| place 32 3 (offset.extractLsb' 2 1) |||
        place 32 2 (offset.extractLsb' 1 1) ||| place 32 1 (offset.extractLsb' 0 1) := by
          ac_rfl
      _ = place 32 1 offset := by simp [place_or_place]
  refine extendSign_place ?_ hb (by decide) (by decide)
  simp [field, range_of_setWidth_eq h, encodeC, fieldsCB, hm]

end FormatCB

/-! ## Format CB of the immediate operations -/

section FormatCBI

variable {f2 : BitVec 2} {rd : RegC} {imm : BitVec 6}
  (h : w.setWidth 16 = encodeC f3 (fieldsCBI f2 rd imm) q)

include h

theorem getRs1p_fieldsCBI : getRs1p w = rd.reg.toNat := by
  simp [getRs1p, range_of_setWidth_eq h, encodeC, fieldsCBI]

theorem getImmADDI_fieldsCBI : getImmADDI w = imm.signExtend 32 := by
  have hb : bit w 12 = place 64 0 (imm.extractLsb' 5 1) := by
    simp [range_of_setWidth_eq h, encodeC, fieldsCBI]
  have haux : field w 12 12 5 ||| field w 6 2 0 = place 32 0 imm := by
    simp [field, range_of_setWidth_eq h, encodeC, fieldsCBI, place_or_place]
  exact getImmADDI_of_fields hb haux

end FormatCBI

/-! ## Format CA -/

section FormatCA

variable {f1 : BitVec 1} {f2 : BitVec 2} {rd rs2 : RegC}
  (h : w.setWidth 16 = encodeC f3 (fieldsCA f1 f2 rd rs2) q)

include h

theorem getRs1p_fieldsCA : getRs1p w = rd.reg.toNat := by
  simp [getRs1p, range_of_setWidth_eq h, encodeC, fieldsCA]

theorem getRs2p_fieldsCA : getRs2p w = rs2.reg.toNat := by
  simp [getRs2p, range_of_setWidth_eq h, encodeC, fieldsCA]

end FormatCA

end RiscvTlm
