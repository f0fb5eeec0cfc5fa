import RiscvTlm.Isa.Compressed

/-!
# Words in a format

Every word is in every format: it is the encoding of its own fields. A scattered immediate is put
together from its pieces, and the encoder takes it apart again.
-/

namespace Isa

open BitField

/-! ## The 32-bit formats -/

section Words

variable {w : BitVec 32} {f7 : BitVec 7} {rs2 rs1 rd : Reg} {f3 : BitVec 3} {opc : BitVec 7}

theorem encodeR_eq (h7 : w.extractLsb' 25 7 = f7) (hrs2 : w.extractLsb' 20 5 = rs2)
    (hrs1 : w.extractLsb' 15 5 = rs1) (h3 : w.extractLsb' 12 3 = f3) (hrd : w.extractLsb' 7 5 = rd)
    (ho : w.extractLsb' 0 7 = opc) : encodeR f7 rs2 rs1 f3 rd opc = w := by
  subst h7 hrs2 hrs1 h3 hrd ho
  simp [encodeR, place_or_place]

theorem encodeI_eq {imm : BitVec 12} (himm : w.extractLsb' 20 12 = imm)
    (hrs1 : w.extractLsb' 15 5 = rs1) (h3 : w.extractLsb' 12 3 = f3) (hrd : w.extractLsb' 7 5 = rd)
    (ho : w.extractLsb' 0 7 = opc) : encodeI imm rs1 f3 rd opc = w := by
  subst himm hrs1 h3 hrd ho
  simp [encodeI, place_or_place]

theorem encodeShift_eq {f6 shamt : BitVec 6} (h6 : w.extractLsb' 26 6 = f6)
    (hs : w.extractLsb' 20 6 = shamt) (hrs1 : w.extractLsb' 15 5 = rs1)
    (h3 : w.extractLsb' 12 3 = f3) (hrd : w.extractLsb' 7 5 = rd)
    (ho : w.extractLsb' 0 7 = opc) : encodeShift f6 shamt rs1 f3 rd opc = w := by
  subst h6 hs hrs1 h3 hrd ho
  simp [encodeShift, place_or_place]

theorem encodeU_eq (ho : w.extractLsb' 0 7 = opc) :
    encodeU (w.extractLsb' 12 20) (w.extractLsb' 7 5) opc = w := by
  subst ho
  simp [encodeU, place_or_place]

theorem encodeS_eq (h3 : w.extractLsb' 12 3 = f3) (ho : w.extractLsb' 0 7 = opc) :
    encodeS (place 12 5 (w.extractLsb' 25 7) ||| place 12 0 (w.extractLsb' 7 5))
      (w.extractLsb' 20 5) (w.extractLsb' 15 5) f3 opc = w := by
  subst h3 ho
  simp [encodeS, BitVec.extractLsb'_or, place_or_place]

theorem encodeB_eq (h3 : w.extractLsb' 12 3 = f3) (ho : w.extractLsb' 0 7 = opc) :
    encodeB (place 12 11 (w.extractLsb' 31 1) ||| place 12 10 (w.extractLsb' 7 1) |||
        place 12 4 (w.extractLsb' 25 6) ||| place 12 0 (w.extractLsb' 8 4))
      (w.extractLsb' 20 5) (w.extractLsb' 15 5) f3 opc = w := by
  subst h3 ho
  simp [encodeB, BitVec.extractLsb'_or, place_or_place]

theorem encodeJ_eq (ho : w.extractLsb' 0 7 = opc) :
    encodeJ (place 20 19 (w.extractLsb' 31 1) ||| place 20 11 (w.extractLsb' 12 8) |||
        place 20 10 (w.extractLsb' 20 1) ||| place 20 0 (w.extractLsb' 21 10))
      (w.extractLsb' 7 5) opc = w := by
  subst ho
  simp [encodeJ, BitVec.extractLsb'_or, place_or_place]

end Words

/-! ## The compressed formats -/

section Halfwords

variable (h : BitVec 16)

/-- The fields of a halfword are the bits between its `funct3` and its quadrant. -/
theorem encodeC_eq {h fields : BitVec 16} {f3 : BitVec 3} {q : BitVec 2}
    (h3 : h.extractLsb' 13 3 = f3) (hf : fields = place 16 2 (h.extractLsb' 2 11))
    (hq : h.extractLsb' 0 2 = q) : h = encodeC f3 fields q := by
  subst h3 hf hq
  simp [encodeC, place_or_place]

theorem fieldsCI_fields :
    fieldsCI (h.extractLsb' 7 5)
        (place 6 5 (h.extractLsb' 12 1) ||| place 6 0 (h.extractLsb' 2 5)) =
      place 16 2 (h.extractLsb' 2 11) := by
  simp [fieldsCI, BitVec.extractLsb'_or, place_or_place]

theorem fieldsCR_fields {f1 : BitVec 1} {rd rs2 : Reg} (h1 : h.extractLsb' 12 1 = f1)
    (hrd : h.extractLsb' 7 5 = rd) (hrs2 : h.extractLsb' 2 5 = rs2) :
    fieldsCR f1 rd rs2 = place 16 2 (h.extractLsb' 2 11) := by
  subst h1 hrd hrs2
  simp [fieldsCR, place_or_place]

theorem fieldsCLW_fields :
    fieldsCLW (h.extractLsb' 7 3)
        (place 5 4 (h.extractLsb' 5 1) ||| place 5 1 (h.extractLsb' 10 3) |||
          place 5 0 (h.extractLsb' 6 1)) (h.extractLsb' 2 3) =
      place 16 2 (h.extractLsb' 2 11) := by
  simp [fieldsCLW, BitVec.extractLsb'_or, place_or_place]

theorem fieldsCLD_fields :
    fieldsCLD (h.extractLsb' 7 3) (place 5 3 (h.extractLsb' 5 2) ||| place 5 0 (h.extractLsb' 10 3))
        (h.extractLsb' 2 3) =
      place 16 2 (h.extractLsb' 2 11) := by
  simp [fieldsCLD, BitVec.extractLsb'_or, place_or_place]

theorem fieldsCJ_fields :
    fieldsCJ (place 11 10 (h.extractLsb' 12 1) ||| place 11 9 (h.extractLsb' 8 1) |||
        place 11 7 (h.extractLsb' 9 2) ||| place 11 6 (h.extractLsb' 6 1) |||
        place 11 5 (h.extractLsb' 7 1) ||| place 11 4 (h.extractLsb' 2 1) |||
        place 11 3 (h.extractLsb' 11 1) ||| place 11 0 (h.extractLsb' 3 3)) =
      place 16 2 (h.extractLsb' 2 11) := by
  simp [fieldsCJ, BitVec.extractLsb'_or, place_or_place]

theorem fieldsCB_fields :
    fieldsCB (h.extractLsb' 7 3)
        (place 8 7 (h.extractLsb' 12 1) ||| place 8 5 (h.extractLsb' 5 2) |||
          place 8 4 (h.extractLsb' 2 1) ||| place 8 2 (h.extractLsb' 10 2) |||
          place 8 0 (h.extractLsb' 3 2)) =
      place 16 2 (h.extractLsb' 2 11) := by
  simp [fieldsCB, BitVec.extractLsb'_or, place_or_place]

theorem fieldsCBI_fields {f2 : BitVec 2} (h2 : h.extractLsb' 10 2 = f2) :
    fieldsCBI f2 (h.extractLsb' 7 3)
        (place 6 5 (h.extractLsb' 12 1) ||| place 6 0 (h.extractLsb' 2 5)) =
      place 16 2 (h.extractLsb' 2 11) := by
  subst h2
  simp [fieldsCBI, BitVec.extractLsb'_or, place_or_place]

theorem fieldsCA_fields {f1 : BitVec 1} {f2 : BitVec 2} (h1 : h.extractLsb' 12 1 = f1)
    (h11 : h.extractLsb' 10 2 = 0b11#2) (h2 : h.extractLsb' 5 2 = f2) :
    fieldsCA f1 f2 (h.extractLsb' 7 3) (h.extractLsb' 2 3) = place 16 2 (h.extractLsb' 2 11) := by
  subst h1 h2
  unfold fieldsCA
  rw [← h11]
  simp [place_or_place]

/-- The fields of `c.addi4spn`. -/
theorem fieldsADDI4SPN_fields {uimm : BitVec 8}
    (hu : uimm = place 8 4 (h.extractLsb' 7 4) ||| place 8 2 (h.extractLsb' 11 2) |||
      place 8 1 (h.extractLsb' 5 1) ||| place 8 0 (h.extractLsb' 6 1)) :
    place 16 11 (uimm.extractLsb' 2 2) ||| place 16 7 (uimm.extractLsb' 4 4) |||
        place 16 6 (uimm.extractLsb' 0 1) ||| place 16 5 (uimm.extractLsb' 1 1) |||
        place 16 2 (h.extractLsb' 2 3) =
      place 16 2 (h.extractLsb' 2 11) := by
  subst hu
  simp [BitVec.extractLsb'_or, place_or_place]

/-- The fields of `c.addi16sp`. -/
theorem fieldsADDI16SP_fields {imm : BitVec 6} (h2 : h.extractLsb' 7 5 = 2#5)
    (hu : imm = place 6 5 (h.extractLsb' 12 1) ||| place 6 3 (h.extractLsb' 3 2) |||
      place 6 2 (h.extractLsb' 5 1) ||| place 6 1 (h.extractLsb' 2 1) |||
      place 6 0 (h.extractLsb' 6 1)) :
    place 16 12 (imm.extractLsb' 5 1) ||| place 16 7 (2#5) ||| place 16 6 (imm.extractLsb' 0 1) |||
        place 16 5 (imm.extractLsb' 2 1) ||| place 16 3 (imm.extractLsb' 3 2) |||
        place 16 2 (imm.extractLsb' 1 1) =
      place 16 2 (h.extractLsb' 2 11) := by
  subst hu
  rw [← h2]
  simp [BitVec.extractLsb'_or, place_or_place]

/-- The fields of `c.lwsp`. -/
theorem fieldsLWSP_fields {uimm : BitVec 6}
    (hu : uimm = place 6 4 (h.extractLsb' 2 2) ||| place 6 3 (h.extractLsb' 12 1) |||
      place 6 0 (h.extractLsb' 4 3)) :
    place 16 12 (uimm.extractLsb' 3 1) ||| place 16 7 (h.extractLsb' 7 5) |||
        place 16 4 (uimm.extractLsb' 0 3) ||| place 16 2 (uimm.extractLsb' 4 2) =
      place 16 2 (h.extractLsb' 2 11) := by
  subst hu
  simp [BitVec.extractLsb'_or, place_or_place]

/-- The fields of `c.ldsp`. -/
theorem fieldsLDSP_fields {uimm : BitVec 6}
    (hu : uimm = place 6 3 (h.extractLsb' 2 3) ||| place 6 2 (h.extractLsb' 12 1) |||
      place 6 0 (h.extractLsb' 5 2)) :
    place 16 12 (uimm.extractLsb' 2 1) ||| place 16 7 (h.extractLsb' 7 5) |||
        place 16 5 (uimm.extractLsb' 0 2) ||| place 16 2 (uimm.extractLsb' 3 3) =
      place 16 2 (h.extractLsb' 2 11) := by
  subst hu
  simp [BitVec.extractLsb'_or, place_or_place]

/-- The fields of `c.swsp`. -/
theorem fieldsSWSP_fields {uimm : BitVec 6}
    (hu : uimm = place 6 4 (h.extractLsb' 7 2) ||| place 6 0 (h.extractLsb' 9 4)) :
    place 16 9 (uimm.extractLsb' 0 4) ||| place 16 7 (uimm.extractLsb' 4 2) |||
        place 16 2 (h.extractLsb' 2 5) =
      place 16 2 (h.extractLsb' 2 11) := by
  subst hu
  simp [BitVec.extractLsb'_or, place_or_place]

/-- The fields of `c.sdsp`. -/
theorem fieldsSDSP_fields {uimm : BitVec 6}
    (hu : uimm = place 6 3 (h.extractLsb' 7 3) ||| place 6 0 (h.extractLsb' 10 3)) :
    place 16 10 (uimm.extractLsb' 0 3) ||| place 16 7 (uimm.extractLsb' 3 3) |||
        place 16 2 (h.extractLsb' 2 5) =
      place 16 2 (h.extractLsb' 2 11) := by
  subst hu
  simp [BitVec.extractLsb'_or, place_or_place]

end Halfwords

end Isa
