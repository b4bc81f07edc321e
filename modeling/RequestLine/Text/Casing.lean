/-! Upper case in the sense of Unicode's full mapping, on texts of any script. -/

namespace RequestLine.Text

/-- The characters that the full upper-case mapping changes, as runs of code points: the first,
the last and the step between two.  A letter without case is in none of them, and neither is an
upper-case letter. -/
def raisedRuns : List (Nat × Nat × Nat) :=
  [(0x0061, 0x007A, 1), (0x00B5, 0x00B5, 1), (0x00DF, 0x00F6, 1), (0x00F8, 0x00FF, 1),
   (0x0101, 0x0137, 2), (0x013A, 0x0148, 2), (0x0149, 0x0177, 2), (0x017A, 0x017E, 2),
   (0x017F, 0x0180, 1), (0x0183, 0x0185, 2), (0x0188, 0x0188, 1), (0x018C, 0x018C, 1),
   (0x0192, 0x0192, 1), (0x0195, 0x0195, 1), (0x0199, 0x019B, 1), (0x019E, 0x019E, 1),
   (0x01A1, 0x01A5, 2), (0x01A8, 0x01A8, 1), (0x01AD, 0x01AD, 1), (0x01B0, 0x01B0, 1),
   (0x01B4, 0x01B6, 2), (0x01B9, 0x01B9, 1), (0x01BD, 0x01BF, 2), (0x01C5, 0x01C6, 1),
   (0x01C8, 0x01C9, 1), (0x01CB, 0x01CC, 1), (0x01CE, 0x01DC, 2), (0x01DD, 0x01EF, 2),
   (0x01F0, 0x01F2, 2), (0x01F3, 0x01F5, 2), (0x01F9, 0x021F, 2), (0x0223, 0x0233, 2),
   (0x023C, 0x023C, 1), (0x023F, 0x0240, 1), (0x0242, 0x0242, 1), (0x0247, 0x024F, 2),
   (0x0250, 0x0254, 1), (0x0256, 0x0257, 1), (0x0259, 0x025B, 2), (0x025C, 0x025C, 1),
   (0x0260, 0x0261, 1), (0x0263, 0x0266, 1), (0x0268, 0x026C, 1), (0x026F, 0x0271, 2),
   (0x0272, 0x0272, 1), (0x0275, 0x0275, 1), (0x027D, 0x027D, 1), (0x0280, 0x0282, 2),
   (0x0283, 0x0283, 1), (0x0287, 0x028C, 1), (0x0292, 0x0292, 1), (0x029D, 0x029E, 1),
   (0x0345, 0x0345, 1), (0x0371, 0x0373, 2), (0x0377, 0x0377, 1), (0x037B, 0x037D, 1),
   (0x0390, 0x0390, 1), (0x03AC, 0x03CE, 1), (0x03D0, 0x03D1, 1), (0x03D5, 0x03D7, 1),
   (0x03D9, 0x03EF, 2), (0x03F0, 0x03F3, 1), (0x03F5, 0x03F5, 1), (0x03F8, 0x03F8, 1),
   (0x03FB, 0x03FB, 1), (0x0430, 0x045F, 1), (0x0461, 0x0481, 2), (0x048B, 0x04BF, 2),
   (0x04C2, 0x04CE, 2), (0x04CF, 0x052F, 2), (0x0561, 0x0587, 1), (0x10D0, 0x10FA, 1),
   (0x10FD, 0x10FF, 1), (0x13F8, 0x13FD, 1), (0x1C80, 0x1C88, 1), (0x1C8A, 0x1C8A, 1),
   (0x1D79, 0x1D79, 1), (0x1D7D, 0x1D7D, 1), (0x1D8E, 0x1D8E, 1), (0x1E01, 0x1E95, 2),
   (0x1E96, 0x1E9B, 1), (0x1EA1, 0x1EFF, 2), (0x1F00, 0x1F07, 1), (0x1F10, 0x1F15, 1),
   (0x1F20, 0x1F27, 1), (0x1F30, 0x1F37, 1), (0x1F40, 0x1F45, 1), (0x1F50, 0x1F57, 1),
   (0x1F60, 0x1F67, 1), (0x1F70, 0x1F7D, 1), (0x1F80, 0x1FB4, 1), (0x1FB6, 0x1FB7, 1),
   (0x1FBC, 0x1FBE, 2), (0x1FC2, 0x1FC4, 1), (0x1FC6, 0x1FC7, 1), (0x1FCC, 0x1FCC, 1),
   (0x1FD0, 0x1FD3, 1), (0x1FD6, 0x1FD7, 1), (0x1FE0, 0x1FE7, 1), (0x1FF2, 0x1FF4, 1),
   (0x1FF6, 0x1FF7, 1), (0x1FFC, 0x1FFC, 1), (0x214E, 0x214E, 1), (0x2170, 0x217F, 1),
   (0x2184, 0x2184, 1), (0x24D0, 0x24E9, 1), (0x2C30, 0x2C5F, 1), (0x2C61, 0x2C61, 1),
   (0x2C65, 0x2C66, 1), (0x2C68, 0x2C6C, 2), (0x2C73, 0x2C73, 1), (0x2C76, 0x2C76, 1),
   (0x2C81, 0x2CE3, 2), (0x2CEC, 0x2CEE, 2), (0x2CF3, 0x2CF3, 1), (0x2D00, 0x2D25, 1),
   (0x2D27, 0x2D27, 1), (0x2D2D, 0x2D2D, 1), (0xA641, 0xA66D, 2), (0xA681, 0xA69B, 2),
   (0xA723, 0xA72F, 2), (0xA733, 0xA76F, 2), (0xA77A, 0xA77C, 2), (0xA77F, 0xA787, 2),
   (0xA78C, 0xA78C, 1), (0xA791, 0xA793, 2), (0xA794, 0xA794, 1), (0xA797, 0xA7A9, 2),
   (0xA7B5, 0xA7C3, 2), (0xA7C8, 0xA7CA, 2), (0xA7CD, 0xA7DB, 2), (0xA7F6, 0xA7F6, 1),
   (0xAB53, 0xAB53, 1), (0xAB70, 0xABBF, 1), (0xFB00, 0xFB06, 1), (0xFB13, 0xFB17, 1),
   (0xFF41, 0xFF5A, 1), (0x10428, 0x1044F, 1), (0x104D8, 0x104FB, 1), (0x10597, 0x105A1, 1),
   (0x105A3, 0x105B1, 1), (0x105B3, 0x105B9, 1), (0x105BB, 0x105BC, 1), (0x10CC0, 0x10CF2, 1),
   (0x10D70, 0x10D85, 1), (0x118C0, 0x118DF, 1), (0x16E60, 0x16E7F, 1), (0x16EBB, 0x16ED3, 1),
   (0x1E922, 0x1E943, 1)]

/-- Whether the full upper-case mapping changes `c`. -/
def isRaised (c : Char) : Bool :=
  raisedRuns.any fun (first, last, step) =>
    first ≤ c.toNat && c.toNat ≤ last && (c.toNat - first) % step == 0

/-- A text equals its own upper case exactly if no character of it changes: each character maps
to one character or more, so a change shows in the result. -/
def isUpperCase (text : List Char) : Bool :=
  text.all fun c => !isRaised c

theorem isRaised_of_isLower {c : Char} (lower : c.isLower) : isRaised c := by
  have bounds : 0x61 ≤ c.toNat ∧ c.toNat ≤ 0x7A := by
    have sides := Bool.and_eq_true_iff.mp lower
    exact ⟨of_decide_eq_true sides.1, of_decide_eq_true sides.2⟩
  exact List.any_eq_true.mpr ⟨(0x61, 0x7A, 1), List.mem_cons_self, by simp [bounds, Nat.mod_one]⟩

end RequestLine.Text
