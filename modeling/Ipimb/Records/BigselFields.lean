import Mathlib.Data.Fintype.Basic

/-!
The fields of a bigsel record after the common ones, in the three orders that have to agree: that of the
database definition, that of the field indices in the header, and that of the members of the structure.
-/

namespace Ipimb.BigselFields

inductive Field where
  | val | selm | seln | prec | nvl
  | inpa | inpb | inpc | inpd | inpe | inpf | inpg | inph
  | inpi | inpj | inpk | inpl | inpm | inpn | inpo | inpp
  | egu | hopr | lopr | hihi | lolo | high | low | hhsv | llsv | hsv | lsv | hyst | adel | mdel
  | a | b | c | d | e | f | g | h | i | j | k | l | m | n | o | p
  | la | lb | lc | ld | le | lf | lg | lh | li | lj | lk | ll | lm | ln | lo | lp
  | lalm | alst | mlst | nlst
  deriving DecidableEq

/-- bigselRecord.dbd -/
def dbd : List Field :=
  [.val, .selm, .seln, .prec, .nvl,
    .inpa, .inpb, .inpc, .inpd, .inpe, .inpf, .inpg, .inph,
    .inpi, .inpj, .inpk, .inpl, .inpm, .inpn, .inpo, .inpp,
    .egu, .hopr, .lopr, .hihi, .lolo, .high, .low, .hhsv, .llsv, .hsv, .lsv, .hyst, .adel, .mdel,
    .a, .b, .c, .d, .e, .f, .g, .h, .i, .j, .k, .l, .m, .n, .o, .p,
    .la, .lb, .lc, .ld, .le, .lf, .lg, .lh, .li, .lj, .lk, .ll, .lm, .ln, .lo, .lp,
    .lalm, .alst, .mlst, .nlst]

/-- The constants of the enumeration, from 45 on. -/
def bigselFieldIndex : List Field :=
  [.val, .selm, .seln, .prec, .nvl,
    .inpa, .inpb, .inpc, .inpd, .inpe, .inpf, .inpg, .inph,
    .inpi, .inpj, .inpk, .inpl, .inpn, .inpm, .inpo, .inpp,
    .egu, .hopr, .lopr, .hihi, .lolo, .high, .low, .hhsv, .llsv, .hsv, .lsv, .hyst, .adel, .mdel,
    .a, .b, .c, .d, .e, .f, .g, .h, .i, .j, .k, .l, .m, .n, .o, .p,
    .la, .lb, .lc, .ld, .le, .lf, .lg, .lh, .li, .lj, .lk, .ll, .lm, .ln, .lo, .lp,
    .lalm, .alst, .mlst, .nlst]

def members : List Field :=
  [.val, .selm, .seln, .prec, .nvl,
    .inpa, .inpb, .inpc, .inpd, .inpe, .inpf, .inpg, .inph,
    .inpi, .inpj, .inpk, .inpl, .inpm, .inpn, .inpo, .inpp,
    .egu, .hopr, .lopr, .hihi, .lolo, .high, .low, .hhsv, .llsv, .hsv, .lsv, .hyst, .adel, .mdel,
    .a, .b, .c, .d, .e, .f, .g, .h, .i, .j, .k, .l, .m, .n, .o, .p,
    .la, .lb, .lc, .ld, .le, .lf, .lg, .lh, .li, .lj, .lk, .ll, .lm, .ln, .lo, .lp,
    .lalm, .alst, .mlst, .nlst]

/-- The member whose offset `bigselRecordSizeOffset` puts into the descriptor of a field: the descriptors
are numbered after the database definition, and found by the constant. -/
def member (name : Field) : Option Field := bigselFieldIndex[dbd.idxOf name]?

/-- How far a pointer has to be moved on from one member to get to the other. -/
def away (base target : Field) : Nat := members.idxOf target - members.idxOf base

def inputs : List Field := (dbd.drop (dbd.idxOf .inpa)).take 16

/-- The link behind the n-th input field, counted from that of INPA. -/
def slot (n : Fin 16) : Nat :=
  match (inputs[n.val]?).bind member with
  | some target => away .inpa target
  | none => 0

/-- Two input fields have got each other's link. -/
theorem slot_eq (n : Fin 16) : slot n = if n.val = 12 then 13 else if n.val = 13 then 12 else n.val := by
  revert n
  decide

theorem slot_injective {n n' : Fin 16} (same : slot n = slot n') : n = n' := by
  rw [slot_eq, slot_eq] at same
  apply Fin.ext
  split_ifs at same <;> omega

end Ipimb.BigselFields
