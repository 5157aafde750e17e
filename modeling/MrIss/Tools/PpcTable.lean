import MrIss.Interp.Decode
import MrIss.Tools.MkDecode
/-!
# The simulator's instruction table

The lines of the instruction table that have a form and an opcode, the
fields that they name, and the functions that the decoder calls, each by its
name with the parameters of its definition.
-/

namespace MrIss.MkDecode

/-! ## The lines -/

/-- The lines of the table that have a form and an opcode. -/
def ppcRows : List Row :=
  [⟨"add", "XO", "31", "266", "", "RA,RB", "RT", "", "ADD_OV(val_RT, val_OV, val_RA, val_RB)", "1",
     "1", "", "", ""⟩,
   ⟨"addc", "XO", "31", "10", "", "RA,RB", "RT", "CA",
     "ADD_OV_CO(val_RT, val_OV, val_CA, val_RA, val_RB)", "1", "1", "", "", ""⟩,
   ⟨"adde", "XO", "31", "138", "", "RA,RB", "RT", "CA",
     "ADD_OV_CO_CI(val_RT, val_OV, val_CA, val_RA, val_RB, val_CA)", "1", "1", "", "", ""⟩,
   ⟨"addi", "D", "14", "", "", "RA0,SI", "RT", "", "val_RT = val_RA0 + SI", "0", "0", "", "", ""⟩,
   ⟨"addis", "D", "15", "", "", "RA0,SI", "RT", "", "val_RT = val_RA0 + ((REG)SI<<16)", "0", "0",
     "", "", ""⟩,
   ⟨"addic", "D", "12", "", "", "RA,SI", "RT", "CA", "ADD_CO(val_RT, val_CA, val_RA, SI)", "0", "0",
     "", "", ""⟩,
   ⟨"addic_rc", "D", "13", "", "", "RA,SI", "RT", "CA", "ADD_CO(val_RT, val_CA, val_RA, SI)", "A",
     "0", "", "", ""⟩,
   ⟨"addme", "XO", "31", "234", "", "RA", "RT", "CA",
     "ADD_OV_CO_CI(val_RT, val_OV, val_CA, val_RA, -1, val_CA)", "1", "1", "", "", ""⟩,
   ⟨"addze", "XO", "31", "202", "", "RA", "RT", "CA",
     "ADD_OV_CO(val_RT, val_OV, val_CA, val_RA, val_CA)", "1", "1", "", "", ""⟩,
   ⟨"and", "X", "31", "28", "", "RS,RB", "RA", "", "val_RA = val_RS & val_RB", "1", "0", "", "",
     ""⟩,
   ⟨"andc", "X", "31", "60", "", "RS,RB", "RA", "", "val_RA = val_RS & ~val_RB", "1", "0", "", "",
     ""⟩,
   ⟨"andi_rc", "D", "28", "", "", "RS,UI", "RA", "", "val_RA = val_RS & UI", "A", "0", "", "", ""⟩,
   ⟨"andis_rc", "D", "29", "", "", "RS,UI", "RA", "", "val_RA = val_RS & ((REG)UI<<16)", "A", "0",
     "", "", ""⟩,
   ⟨"b", "I", "18", "", "", "LI,AA", "", "LR if LK", "", "", "", "1", "1", "1"⟩,
   ⟨"bc", "B", "16", "", "0", "BO,BI,BD", "", "CTR, LR if LK", "", "", "", "1", "1", "1"⟩,
   ⟨"bc", "B", "16", "", "1", "BO,BI,BD", "", "CTR, LR if LK", "", "", "", "", "1", "1"⟩,
   ⟨"bc", "B", "16", "", "1", "BO,BI,BD", "", "CTR, LR if LK", "", "", "", "", "1", "1"⟩,
   ⟨"bc", "B", "16", "", "1", "BO,BI,BD", "", "LR if LK", "", "", "", "", "1", "1"⟩,
   ⟨"bc", "B", "16", "", "1", "BO,BI,BD", "", "CTR, LR if LK", "", "", "", "", "1", "1"⟩,
   ⟨"bc", "B", "16", "", "1", "BO,BI,BD", "", "CTR, LR if LK", "", "", "", "", "1", "1"⟩,
   ⟨"bc", "B", "16", "", "1", "BO,BI,BD", "", "LR if LK", "", "", "", "", "1", "1"⟩,
   ⟨"bc", "B", "16", "", "1", "BO,BI,BD", "", "CTR, LR if LK", "", "", "", "", "1", "1"⟩,
   ⟨"bc", "B", "16", "", "1", "BO,BI,BD", "", "CTR, LR if LK", "", "", "", "", "1", "1"⟩,
   ⟨"bc", "B", "16", "", "1", "BO,BI,BD", "", "LR if LK", "", "", "", "", "1", "1"⟩,
   ⟨"bclr", "XL", "19", "16", "0", "BO,BI,BH", "", "CTR, LR if LK", "", "", "", "1", "0", "1"⟩,
   ⟨"bclr", "XL", "19", "16", "1", "BO,BI,BH", "", "CTR, LR if LK", "", "", "", "", "0", "1"⟩,
   ⟨"bclr", "XL", "19", "16", "1", "BO,BI,BH", "", "CTR, LR if LK", "", "", "", "", "0", "1"⟩,
   ⟨"bclr", "XL", "19", "16", "1", "BO,BI,BH", "", "LR if LK", "", "", "", "", "0", "1"⟩,
   ⟨"bclr", "XL", "19", "16", "1", "BO,BI,BH", "", "CTR, LR if LK", "", "", "", "", "0", "1"⟩,
   ⟨"bclr", "XL", "19", "16", "1", "BO,BI,BH", "", "CTR, LR if LK", "", "", "", "", "0", "1"⟩,
   ⟨"bclr", "XL", "19", "16", "1", "BO,BI,BH", "", "LR if LK", "", "", "", "", "0", "1"⟩,
   ⟨"bclr", "XL", "19", "16", "1", "BO,BI,BH", "", "CTR, LR if LK", "", "", "", "", "0", "1"⟩,
   ⟨"bclr", "XL", "19", "16", "1", "BO,BI,BH", "", "CTR, LR if LK", "", "", "", "", "0", "1"⟩,
   ⟨"bclr", "XL", "19", "16", "1", "BO,BI,BH", "", "LR if LK", "", "", "", "", "0", "1"⟩,
   ⟨"bcctr", "XL", "19", "528", "0", "BO,BI,BH", "", "LR if LK", "", "", "", "1", "0", "1"⟩,
   ⟨"bcctr", "XL", "19", "528", "1", "BO,BI,BH", "", "LR if LK", "", "", "", "", "0", "1"⟩,
   ⟨"bcctr", "XL", "19", "528", "1", "BO,BI,BH", "", "LR if LK", "", "", "", "", "0", "1"⟩,
   ⟨"bcctr", "XL", "19", "528", "1", "BO,BI,BH", "", "LR if LK", "", "", "", "", "0", "1"⟩,
   ⟨"cmp", "X", "31", "0", "", "BF,RA,RB", "", "CR",
     "WRITE_CR_FIELD(val_CR, BF, CMP(val_RA, val_RB))", "", "", "", "", ""⟩,
   ⟨"cmpi", "D", "11", "", "", "BF,RA,SI", "", "CR", "WRITE_CR_FIELD(val_CR, BF, CMP(val_RA, SI))",
     "", "", "", "", ""⟩,
   ⟨"cmpl", "X", "31", "32", "", "BF,RA,RB", "", "CR",
     "WRITE_CR_FIELD(val_CR, BF, CMPu(val_RA, val_RB))", "", "", "", "", ""⟩,
   ⟨"cmpli", "D", "10", "", "", "BF,RA,UI", "", "CR",
     "WRITE_CR_FIELD(val_CR, BF, CMPu(val_RA, UI))", "", "", "", "", ""⟩,
   ⟨"cntlzw", "X", "31", "26", "", "RS", "RA", "", "", "1", "", "", "", ""⟩,
   ⟨"crand", "XL", "19", "257", "", "BT,BA,BB", "", "CR",
     "WBIT(val_CR, BT, RBIT(val_CR, BA) & RBIT(val_CR, BB))", "", "", "", "", ""⟩,
   ⟨"crandc", "XL", "19", "129", "", "BT,BA,BB", "", "CR",
     "WBIT(val_CR, BT, RBIT(val_CR, BA) & ~RBIT(val_CR, BB))", "", "", "", "", ""⟩,
   ⟨"creqv", "XL", "19", "289", "", "BT,BA,BB", "", "CR",
     "WBIT(val_CR, BT, ~(RBIT(val_CR, BA) ^ RBIT(val_CR, BB)))", "", "", "", "", ""⟩,
   ⟨"crnand", "XL", "19", "225", "", "BT,BA,BB", "", "CR",
     "WBIT(val_CR, BT, ~(RBIT(val_CR, BA) & RBIT(val_CR, BB)))", "", "", "", "", ""⟩,
   ⟨"crnor", "XL", "19", "33", "", "BT,BA,BB", "", "CR",
     "WBIT(val_CR, BT, ~(RBIT(val_CR, BA) | RBIT(val_CR, BB)))", "", "", "", "", ""⟩,
   ⟨"cror", "XL", "19", "449", "", "BT,BA,BB", "", "CR",
     "WBIT(val_CR, BT, RBIT(val_CR, BA) | RBIT(val_CR, BB))", "", "", "", "", ""⟩,
   ⟨"crorc", "XL", "19", "417", "", "BT,BA,BB", "", "CR",
     "WBIT(val_CR, BT, RBIT(val_CR, BA) | ~RBIT(val_CR, BB))", "", "", "", "", ""⟩,
   ⟨"crxor", "XL", "19", "193", "", "BT,BA,BB", "", "CR",
     "WBIT(val_CR, BT, RBIT(val_CR, BA) ^ RBIT(val_CR, BB))", "", "", "", "", ""⟩,
   ⟨"divw", "XO", "31", "491", "", "RA,RB", "RT", "", "", "1", "1", "", "", ""⟩,
   ⟨"divwu", "XO", "31", "459", "", "RA,RB", "RT", "", "", "1", "1", "", "", ""⟩,
   ⟨"eieio", "X", "31", "854", "", "", "", "", "", "", "", "", "", ""⟩,
   ⟨"eqv", "X", "31", "284", "", "RS,RB", "RA", "", "val_RA = ~(val_RS ^ val_RB)", "1", "", "", "",
     ""⟩,
   ⟨"extsb", "X", "31", "954", "", "RS", "RA", "", "val_RA = SXT8(val_RS)", "1", "", "", "", ""⟩,
   ⟨"extsh", "X", "31", "922", "", "RS", "RA", "", "val_RA = SXT16(val_RS)", "1", "", "", "", ""⟩,
   ⟨"isync", "XL", "19", "150", "", "", "", "", "", "", "", "", "", ""⟩,
   ⟨"lbz", "D", "34", "", "", "RA0,D", "RT", "", "val_RT=LOAD8(val_RA0 + D) ; MFCHECK(1)", "", "",
     "", "", ""⟩,
   ⟨"lbzu", "D", "35", "", "", "RA,D", "RT,RA", "",
     "ADR x = val_RA + D ; val_RT = LOAD8(x) ; val_RA = x ; MFCHECK(1)", "", "", "", "", ""⟩,
   ⟨"lbzx", "X", "31", "87", "", "RA0,RB", "RT", "",
     "val_RT = LOAD8(val_RA0 + val_RB) ; MFCHECK(1)", "", "", "", "", ""⟩,
   ⟨"lbzux", "X", "31", "119", "", "RA,RB", "RT,RA", "",
     "ADR x = val_RA + val_RB ; val_RT = LOAD8(x) ; val_RA = x ; MFCHECK(1)", "", "", "", "", ""⟩,
   ⟨"lha", "D", "42", "", "", "RA0,D", "RT", "", "val_RT = SXT16(LOAD16(val_RA0 + D)) ; MFCHECK(1)",
     "", "", "", "", ""⟩,
   ⟨"lhau", "D", "43", "", "", "RA,D", "RT,RA", "",
     "ADR x = val_RA + D ; val_RT = SXT16(LOAD16(x)) ; val_RA = x ; MFCHECK(1)", "", "", "", "",
     ""⟩,
   ⟨"lhax", "X", "31", "343", "", "RA0,RB", "RT", "",
     "val_RT = SXT16(LOAD16(val_RA0 + val_RB)) ; MFCHECK(1)", "", "", "", "", ""⟩,
   ⟨"lhaux", "X", "31", "375", "", "RA,RB", "RT,RA", "",
     "ADR x = val_RA + val_RB ; val_RT = SXT16(LOAD16(x)) ; val_RA = x ; MFCHECK(1)", "", "", "",
     "", ""⟩,
   ⟨"lhbrx", "X", "31", "790", "", "RA0,RB", "RT", "",
     "val_RT = BSWAP16(LOAD16(val_RA0 + val_RB)) ; MFCHECK(1)", "", "", "", "", ""⟩,
   ⟨"lhz", "D", "40", "", "", "RA0,D", "RT", "", "val_RT = LOAD16(val_RA0 + D) ; MFCHECK(1)", "",
     "", "", "", ""⟩,
   ⟨"lhzu", "D", "41", "", "", "RA,D", "RT,RA", "",
     "ADR x = val_RA + D ; val_RT = LOAD16(x) ; val_RA = x ; MFCHECK(1)", "", "", "", "", ""⟩,
   ⟨"lhzx", "X", "31", "279", "", "RA0,RB", "RT", "",
     "val_RT = LOAD16(val_RA0 + val_RB) ; MFCHECK(1)", "", "", "", "", ""⟩,
   ⟨"lhzux", "X", "31", "311", "", "RA,RB", "RT,RA", "",
     "ADR x = val_RA + val_RB ; val_RT = LOAD16(x) ; val_RA = x ; MFCHECK(1)", "", "", "", "", ""⟩,
   ⟨"lmw", "D", "46", "", "", "RT,D,RA0", "", "", "", "", "", "", "", ""⟩,
   ⟨"lswi", "X", "31", "597", "", "RT,RA0,NB", "", "", "", "", "", "", "", ""⟩,
   ⟨"lswx", "X", "31", "533", "", "RT,RA0,RB", "", "", "", "", "", "", "", ""⟩,
   ⟨"lwarx", "X", "31", "20", "", "RA0,RB,EH", "RT", "", "", "", "", "", "", ""⟩,
   ⟨"lwbrx", "X", "31", "534", "", "RA0,RB", "RT", "",
     "val_RT = BSWAP32(LOAD32(val_RA0 + val_RB)) ; MFCHECK(1)", "", "", "", "", ""⟩,
   ⟨"lwz", "D", "32", "", "", "RA0,D", "RT", "", "val_RT = LOAD32(val_RA0 + D) ; MFCHECK(1)", "",
     "", "", "", ""⟩,
   ⟨"lwzu", "D", "33", "", "", "RA,D", "RT,RA", "",
     "ADR x = val_RA + D ; val_RT = LOAD32(x) ; val_RA = x ; MFCHECK(1)", "", "", "", "", ""⟩,
   ⟨"lwzx", "X", "31", "23", "", "RA0,RB", "RT", "",
     "val_RT = LOAD32(val_RA0 + val_RB) ; MFCHECK(1)", "", "", "", "", ""⟩,
   ⟨"lwzux", "X", "31", "55", "", "RA,RB", "RT,RA", "",
     "ADR x = val_RA + val_RB ; val_RT = LOAD32(x) ; val_RA = x ; MFCHECK(1)", "", "", "", "", ""⟩,
   ⟨"mcrf", "XL", "19", "0", "", "BF,BFA", "", "CR", "", "", "", "", "", ""⟩,
   ⟨"mcrxr", "X", "31", "512", "", "BF", "", "", "", "", "", "", "", ""⟩,
   ⟨"mfcr", "XFX", "31", "19", "", "", "RT", "", "", "", "", "", "", ""⟩,
   ⟨"mfmsr", "X", "31", "83", "", "", "RT", "", "val_RT = READ_MSR()", "", "", "", "", ""⟩,
   ⟨"mfspr", "XFX", "31", "339", "0", "spr", "RT", "", "", "", "", "", "", ""⟩,
   ⟨"mfspr", "XFX", "31", "339", "1", "spr", "RT", "", "", "", "", "", "", ""⟩,
   ⟨"mfspr", "XFX", "31", "339", "1", "spr", "RT", "", "", "", "", "", "", ""⟩,
   ⟨"mfspr", "XFX", "31", "339", "1", "spr", "RT", "", "", "", "", "", "", ""⟩,
   ⟨"mfspr", "XFX", "31", "339", "1", "spr", "RT", "", "", "", "", "", "", ""⟩,
   ⟨"mfspr", "XFX", "31", "339", "1", "spr", "RT", "", "", "", "", "", "", ""⟩,
   ⟨"mfspr", "XFX", "31", "339", "1", "spr", "RT", "", "", "", "", "", "", ""⟩,
   ⟨"mfspr", "XFX", "31", "339", "1", "spr", "RT", "", "", "", "", "", "", ""⟩,
   ⟨"mfspr", "XFX", "31", "339", "1", "spr", "RT", "", "", "", "", "", "", ""⟩,
   ⟨"mfspr", "XFX", "31", "339", "1", "spr", "RT", "", "", "", "", "", "", ""⟩,
   ⟨"mfspr", "XFX", "31", "339", "1", "spr", "RT", "", "", "", "", "", "", ""⟩,
   ⟨"mfspr", "XFX", "31", "339", "1", "spr", "RT", "", "", "", "", "", "", ""⟩,
   ⟨"mfspr", "XFX", "31", "339", "1", "spr", "RT", "", "", "", "", "", "", ""⟩,
   ⟨"mfspr", "XFX", "31", "339", "1", "spr", "RT", "", "", "", "", "", "", ""⟩,
   ⟨"mfspr", "XFX", "31", "339", "1", "spr", "RT", "", "", "", "", "", "", ""⟩,
   ⟨"mfspr", "XFX", "31", "339", "1", "spr", "RT", "", "", "", "", "", "", ""⟩,
   ⟨"mfspr", "XFX", "31", "339", "1", "spr", "RT", "", "", "", "", "", "", ""⟩,
   ⟨"mfspr", "XFX", "31", "339", "1", "spr", "RT", "", "", "", "", "", "", ""⟩,
   ⟨"mftb", "XFX", "31", "371", "0", "spr", "RT", "", "", "", "", "", "", ""⟩,
   ⟨"mftb", "XFX", "31", "371", "1", "spr", "RT", "", "", "", "", "", "", ""⟩,
   ⟨"mftb", "XFX", "31", "371", "1", "spr", "RT", "", "", "", "", "", "", ""⟩,
   ⟨"mtcrf", "XFX", "31", "144", "", "FXM,RS", "", "CR", "", "", "", "", "", ""⟩,
   ⟨"mtmsr", "X", "31", "146", "", "RS", "", "MSR", "WRITE_MSR(val_RS); (void)val_MSR", "", "", "2",
     "", ""⟩,
   ⟨"mtspr", "XFX", "31", "467", "0", "spr,RS", "", "", "", "", "", "", "", ""⟩,
   ⟨"mtspr", "XFX", "31", "467", "1", "spr,RS", "", "", "", "", "", "", "", ""⟩,
   ⟨"mtspr", "XFX", "31", "467", "1", "spr,RS", "", "", "", "", "", "", "", ""⟩,
   ⟨"mtspr", "XFX", "31", "467", "1", "spr,RS", "", "", "", "", "", "", "", ""⟩,
   ⟨"mtspr", "XFX", "31", "467", "1", "spr,RS", "", "", "", "", "", "", "", ""⟩,
   ⟨"mtspr", "XFX", "31", "467", "1", "spr,RS", "", "", "", "", "", "", "", ""⟩,
   ⟨"mtspr", "XFX", "31", "467", "1", "spr,RS", "", "", "", "", "", "", "", ""⟩,
   ⟨"mtspr", "XFX", "31", "467", "1", "spr,RS", "", "", "", "", "", "", "", ""⟩,
   ⟨"mtspr", "XFX", "31", "467", "1", "spr,RS", "", "", "", "", "", "", "", ""⟩,
   ⟨"mtspr", "XFX", "31", "467", "1", "spr,RS", "", "", "", "", "", "", "", ""⟩,
   ⟨"mtspr", "XFX", "31", "467", "1", "spr,RS", "", "", "", "", "", "", "", ""⟩,
   ⟨"mtspr", "XFX", "31", "467", "1", "spr,RS", "", "", "", "", "", "", "", ""⟩,
   ⟨"mtspr", "XFX", "31", "467", "1", "spr,RS", "", "", "", "", "", "", "", ""⟩,
   ⟨"mtspr", "XFX", "31", "467", "1", "spr,RS", "", "", "", "", "", "", "", ""⟩,
   ⟨"mtspr", "XFX", "31", "467", "1", "spr,RS", "", "", "", "", "", "", "", ""⟩,
   ⟨"mtspr", "XFX", "31", "467", "1", "spr,RS", "", "", "", "", "", "", "", ""⟩,
   ⟨"mtspr", "XFX", "31", "467", "1", "spr,RS", "", "", "", "", "", "", "", ""⟩,
   ⟨"mtspr", "XFX", "31", "467", "1", "spr,RS", "", "", "", "", "", "", "", ""⟩,
   ⟨"mtspr", "XFX", "31", "467", "1", "spr,RS", "", "", "", "", "", "", "", ""⟩,
   ⟨"mulhw", "X", "31", "75", "", "RA,RB", "RT", "",
     "val_RT = ((s64)(s32)val_RA * (s64)(s32)val_RB)>>32", "1", "", "", "", ""⟩,
   ⟨"mulhwu", "X", "31", "11", "", "RA,RB", "RT", "", "val_RT = ((u64)val_RA * (u64)val_RB)>>32",
     "1", "", "", "", ""⟩,
   ⟨"mulli", "D", "7", "", "", "RA,SI", "RT", "", "val_RT = val_RA * SI", "", "", "", "", ""⟩,
   ⟨"mullw", "XO", "31", "235", "", "RA,RB", "RT", "",
     "u64 x = (s64)(s32)val_RA * (s64)(s32)val_RB; val_RT = x; " ++
       "val_OV = ((x >> 32) != 0 && (x >> 31) != 0x1ffffffff) " ++
       "|| (((SIGN(val_RA) ^ SIGN(val_RB)) != SIGN(x)) && x)",
     "1", "1", "", "", ""⟩,
   ⟨"nand", "X", "31", "476", "", "RS,RB", "RA", "", "val_RA = ~(val_RS & val_RB)", "1", "", "", "",
     ""⟩,
   ⟨"neg", "XO", "31", "104", "", "RA", "RT", "", "ADD_OV(val_RT, val_OV, ~val_RA, 1)", "1", "1",
     "", "", ""⟩,
   ⟨"nor", "X", "31", "124", "", "RS,RB", "RA", "", "val_RA = ~(val_RS | val_RB)", "1", "", "", "",
     ""⟩,
   ⟨"or", "X", "31", "444", "", "RS,RB", "RA", "", "val_RA = val_RS | val_RB", "1", "", "", "", ""⟩,
   ⟨"orc", "X", "31", "412", "", "RS,RB", "RA", "", "val_RA = val_RS | ~val_RB", "1", "", "", "",
     ""⟩,
   ⟨"ori", "D", "24", "", "", "RS,UI", "RA", "", "val_RA = val_RS | UI", "", "", "", "", ""⟩,
   ⟨"oris", "D", "25", "", "", "RS,UI", "RA", "", "val_RA = val_RS | ((REG)UI<<16)", "", "", "", "",
     ""⟩,
   ⟨"rfi", "XL", "19", "50", "", "", "", "", "", "", "", "2", "", ""⟩,
   ⟨"rlwimi", "M", "20", "", "", "RA,RS,SH,MB,ME", "RA", "", "", "1", "", "", "", ""⟩,
   ⟨"rlwinm", "M", "21", "", "", "RS,SH,MB,ME", "RA", "", "", "1", "", "", "", ""⟩,
   ⟨"rlwnm", "M", "23", "", "", "RB,RS,MB,ME", "RA", "", "", "1", "", "", "", ""⟩,
   ⟨"sc", "SC", "17", "1", "", "LEV", "", "", "", "", "", "2", "", ""⟩,
   ⟨"slw", "X", "31", "24", "", "RS,RB", "RA", "",
     "int sh = (val_RB & 0x3f); val_RA = sh & 0x20 ? 0 : (val_RS << (val_RB & 0x1f))", "1", "", "",
     "", ""⟩,
   ⟨"sraw", "X", "31", "792", "", "RS,RB", "RA", "CA", "", "1", "", "", "", ""⟩,
   ⟨"srawi", "X", "31", "824", "", "RS,SH", "RA", "CA", "", "1", "", "", "", ""⟩,
   ⟨"srw", "X", "31", "536", "", "RS,RB", "RA", "",
     "val_RA = (val_RB & 0x20) ? 0 :(uint32_t)val_RS >> (val_RB & 0x1f)", "1", "", "", "", ""⟩,
   ⟨"stb", "D", "38", "", "", "RS,RA0,D", "", "", "STORE8(val_RA0 + D, val_RS) ; MFCHECK(0)", "",
     "", "", "", ""⟩,
   ⟨"stbu", "D", "39", "", "", "RS,RA,D", "RA", "",
     "ADR x = val_RA+D ; STORE8(x, val_RS); val_RA = x ; MFCHECK(0)", "", "", "", "", ""⟩,
   ⟨"stbx", "X", "31", "215", "", "RS,RA0,RB", "", "",
     "STORE8(val_RA0 + val_RB, val_RS) ; MFCHECK(0)", "", "", "", "", ""⟩,
   ⟨"stbux", "X", "31", "247", "", "RS,RA,RB", "RA", "",
     "ADR x = val_RA + val_RB ; STORE8(x, val_RS); val_RA = x ; MFCHECK(0)", "", "", "", "", ""⟩,
   ⟨"sth", "D", "44", "", "", "RS,RA0,D", "", "", "STORE16(val_RA0 + D, val_RS) ; MFCHECK(0)", "",
     "", "", "", ""⟩,
   ⟨"sthbrx", "X", "31", "918", "", "RS,RA0,RB", "", "",
     "STORE16(val_RA0 + val_RB, BSWAP16(val_RS)) ; MFCHECK(0)", "", "", "", "", ""⟩,
   ⟨"sthu", "D", "45", "", "", "RS,RA,D", "RA", "",
     "ADR x = val_RA + D ; STORE16(x, val_RS); val_RA = x ; MFCHECK(0)", "", "", "", "", ""⟩,
   ⟨"sthx", "X", "31", "407", "", "RS,RA0,RB", "", "",
     "STORE16(val_RA0 + val_RB, val_RS) ; MFCHECK(0)", "", "", "", "", ""⟩,
   ⟨"sthux", "X", "31", "439", "", "RS,RA,RB", "RA", "",
     "ADR x = val_RA + val_RB ; STORE16(x, val_RS); val_RA = x ; MFCHECK(0)", "", "", "", "", ""⟩,
   ⟨"stmw", "D", "47", "", "", "RS,D,RA0", "", "", "", "", "", "", "", ""⟩,
   ⟨"stswi", "X", "31", "725", "", "RS,RA0,NB", "", "", "", "", "", "", "", ""⟩,
   ⟨"stswx", "X", "31", "661", "", "RS,RA0,RB", "", "", "", "", "", "", "", ""⟩,
   ⟨"stw", "D", "36", "", "", "RS,RA0,D", "", "", "STORE32(val_RA0 + D, val_RS) ; MFCHECK(0)", "",
     "", "", "", ""⟩,
   ⟨"stwbrx", "X", "31", "662", "", "RS,RA0,RB", "", "",
     "STORE32(val_RA0 + val_RB, BSWAP32(val_RS)) ; MFCHECK(0)", "", "", "", "", ""⟩,
   ⟨"stwcx", "X", "31", "150", "", "RS,RA0,RB", "", "CR", "", "A", "", "", "", ""⟩,
   ⟨"stwu", "D", "37", "", "", "RS,RA,D", "RA", "",
     "ADR x = val_RA + D ; STORE32(x, val_RS); val_RA = x ; MFCHECK(0)", "", "", "", "", ""⟩,
   ⟨"stwx", "X", "31", "151", "", "RS,RA0,RB", "", "",
     "STORE32(val_RA0 + val_RB, val_RS) ; MFCHECK(0)", "", "", "", "", ""⟩,
   ⟨"stwux", "X", "31", "183", "", "RS,RA,RB", "RA", "",
     "ADR x = val_RA + val_RB ; STORE32(x, val_RS); val_RA = x ; MFCHECK(0)", "", "", "", "", ""⟩,
   ⟨"subf", "XO", "31", "40", "", "RA,RB", "RT", "",
     "ADD_OV_CI(val_RT, val_OV, ~val_RA, val_RB, 1)", "1", "1", "", "", ""⟩,
   ⟨"subfc", "XO", "31", "8", "", "RA,RB", "RT", "CA",
     "ADD_OV_CO_CI(val_RT, val_OV, val_CA, ~val_RA, val_RB, 1)", "1", "1", "", "", ""⟩,
   ⟨"subfe", "XO", "31", "136", "", "RA,RB", "RT", "CA",
     "ADD_OV_CO_CI(val_RT, val_OV, val_CA, ~val_RA, val_RB, val_CA)", "1", "1", "", "", ""⟩,
   ⟨"subfic", "D", "8", "", "", "RA,SI", "RT", "CA", "ADD_CO_CI(val_RT, val_CA, ~val_RA, SI, 1)",
     "", "", "", "", ""⟩,
   ⟨"subfme", "XO", "31", "232", "", "RA", "RT", "CA",
     "ADD_OV_CO_CI(val_RT, val_OV, val_CA, ~val_RA, -1, val_CA)", "1", "1", "", "", ""⟩,
   ⟨"subfze", "XO", "31", "200", "", "RA", "RT", "CA",
     "ADD_OV_CO_CI(val_RT, val_OV, val_CA, ~val_RA, 0, val_CA)", "1", "1", "", "", ""⟩,
   ⟨"sync", "X", "31", "598", "", "L,E", "", "", "", "", "", "", "", ""⟩,
   ⟨"tw", "X", "31", "4", "", "TO,RA,RB", "", "", "", "", "", "", "", ""⟩,
   ⟨"twi", "D", "3", "", "", "TO,RA,SI", "", "", "", "", "", "", "", ""⟩,
   ⟨"xor", "X", "31", "316", "", "RS,RB", "RA", "", "val_RA = val_RS ^ val_RB", "1", "", "", "",
     ""⟩,
   ⟨"xori", "D", "26", "", "", "RS,UI", "RA", "", "val_RA = val_RS ^ UI", "", "", "", "", ""⟩,
   ⟨"xoris", "D", "27", "", "", "RS,UI", "RA", "", "val_RA = val_RS ^ ((REG)UI<<16)", "", "", "",
     "", ""⟩,
   ⟨"DEBUG", "X", "5", "69", "", "RA", "", "", "", "", "", "", "", ""⟩,
   ⟨"dcba", "X", "31", "758", "", "RA0,RB", "", "", "NOP(); (void)val_RA0; (void)val_RB;", "", "",
     "", "", ""⟩,
   ⟨"dcbi", "X", "31", "470", "", "RA0,RB", "", "", "LOAD8(val_RA0+val_RB) ; MFCHECK(1)", "", "",
     "", "", ""⟩,
   ⟨"dcbf", "X", "31", "86", "", "RA0,RB", "", "", "LOAD8(val_RA0+val_RB) ; MFCHECK(1)", "", "", "",
     "", ""⟩,
   ⟨"dcbt", "X", "31", "278", "", "RA0,RB,TH", "", "", "NOP(); (void)val_RA0; (void)val_RB;", "",
     "", "", "", ""⟩,
   ⟨"dcbst", "X", "31", "54", "", "RA0,RB", "", "", "LOAD8(val_RA0+val_RB) ; MFCHECK(1)", "", "",
     "", "", ""⟩,
   ⟨"dcbtst", "X", "31", "246", "", "RA0,RB,TH", "", "", "NOP(); (void)val_RA0; (void)val_RB;", "",
     "", "", "", ""⟩,
   ⟨"dcbz", "X", "31", "1014", "", "RA0,RB", "", "",
     "for (int i = 0; i < 8; i++) \x7b STORE32(((val_RA0+val_RB) & ~31)+(i*4), 0); " ++
       "MFCHECK(0); \x7d",
     "", "", "", "", ""⟩,
   ⟨"icbi", "X", "31", "982", "", "RA0,RB", "", "", "", "", "", "2", "", ""⟩,
   ⟨"icbt", "X", "31", "22", "", "CT,RA0,RB", "", "", "NOP(); (void)val_RA0; (void)val_RB;", "", "",
     "", "", ""⟩,
   ⟨"mfsr", "X", "31", "595", "", "SR", "RT", "", "", "", "", "", "", ""⟩,
   ⟨"mfsrin", "X", "31", "659", "", "RB", "RT", "", "", "", "", "", "", ""⟩,
   ⟨"mtsr", "X", "31", "210", "", "SR,RS", "", "", "", "", "", "", "", ""⟩,
   ⟨"mtsrin", "X", "31", "242", "", "RS,RB", "", "", "", "", "", "", "", ""⟩,
   ⟨"tlbie", "X", "31", "306", "", "RB,L", "", "", "", "", "", "2", "", ""⟩,
   ⟨"tlbiel", "X", "31", "274", "", "RB,L", "", "", "", "", "", "2", "", ""⟩,
   ⟨"tlbia", "X", "31", "370", "", "", "", "", "mmu->tlbia()", "", "", "2", "", ""⟩,
   ⟨"tlbsync", "X", "31", "566", "", "", "", "", "NOP()", "", "", "2", "", ""⟩]

/-! ## The fields -/

/-- An accessor of a field, which returns it as an unsigned or as a signed
number. -/
inductive Field where
  | u32 (f : BitVec 32 → Reg)
  | s32 (f : BitVec 32 → Reg)

namespace Field

/-- The number that is returned. -/
def val : Field → BitVec 32 → ℤ
  | u32 f, w => (f w).toNat
  | s32 f, w => (f w).toInt

/-- Its bits. -/
def reg : Field → BitVec 32 → Reg
  | u32 f, w | s32 f, w => f w

end Field

/-- The fields of a form that the lines name. -/
def fieldsOf : String → List (String × Field)
  | "I" => [("LI", .u32 iLI), ("AA", .u32 iAA), ("LK", .u32 iLK)]
  | "B" =>
    [("BO", .u32 bBO), ("BI", .u32 bBI), ("BD", .u32 bBD), ("AA", .u32 bAA), ("LK", .u32 bLK)]
  | "SC" => [("LEV", .u32 scLEV)]
  | "D" =>
    [("RA0", .u32 dRA0), ("SI", .s32 dSI), ("RT", .u32 dRT), ("RA", .u32 dRA), ("RS", .u32 dRS),
      ("UI", .u32 dUI), ("BF", .u32 dBF), ("D", .s32 dD), ("TO", .u32 dTO)]
  | "X" =>
    [("RS", .u32 xRS), ("RB", .u32 xRB), ("RA", .u32 xRA), ("Rc", .u32 xRc), ("BF", .u32 xBF),
      ("RA0", .u32 xRA0), ("RT", .u32 xRT), ("NB", .u32 xNB), ("EH", .u32 xEH), ("SH", .u32 xSH),
      ("L", .u32 xL), ("E", .u32 xE), ("TO", .u32 xTO), ("TH", .u32 xTH), ("CT", .u32 xCT),
      ("SR", .u32 xSR)]
  | "XL" =>
    [("BO", .u32 xlBO), ("BI", .u32 xlBI), ("BH", .u32 xlBH), ("LK", .u32 xlLK), ("BT", .u32 xlBT),
      ("BA", .u32 xlBA), ("BB", .u32 xlBB), ("BF", .u32 xlBF), ("BFA", .u32 xlBFA)]
  | "XFX" => [("RT", .u32 xfxRT), ("spr", .u32 xfxSpr), ("FXM", .u32 xfxFXM), ("RS", .u32 xfxRS)]
  | "XO" =>
    [("RA", .u32 xoRA), ("RB", .u32 xoRB), ("RT", .u32 xoRT), ("Rc", .u32 xoRc), ("OE", .u32 xoOE)]
  | "M" =>
    [("RA", .u32 mRA), ("RS", .u32 mRS), ("SH", .u32 mSH), ("MB", .u32 mMB), ("ME", .u32 mME),
      ("Rc", .u32 mRc), ("RB", .u32 mRB)]
  | _ => []

/-- The accessors of the instruction fields; X, XO and XFX forms have their
extended opcode in one place. -/
def Accessors.instructionFields : Accessors where
  xopc
    | "XL" => xlXOPC
    | "SC" => scXOPC
    | _ => xXOPC
  field form name w := ((fieldsOf form).lookup name).elim 0 (·.val w)

/-! ## The functions -/

/-- The body of a function, by its arguments. -/
abbrev OpBody : Type := List Reg → Option (InterpM Unit)

def op0 (f : InterpM Unit) : OpBody
  | [] => some f
  | _ => none

def op1 (f : Reg → InterpM Unit) : OpBody
  | [a] => some (f a)
  | _ => none

def op2 (f : Reg → Reg → InterpM Unit) : OpBody
  | [a, b] => some (f a b)
  | _ => none

def op3 (f : Reg → Reg → Reg → InterpM Unit) : OpBody
  | [a, b, c] => some (f a b c)
  | _ => none

def op4 (f : Reg → Reg → Reg → Reg → InterpM Unit) : OpBody
  | [a, b, c, d] => some (f a b c d)
  | _ => none

def op5 (f : Reg → Reg → Reg → Reg → Reg → InterpM Unit) : OpBody
  | [a, b, c, d, e] => some (f a b c d e)
  | _ => none

def op6 (f : Reg → Reg → Reg → Reg → Reg → Reg → InterpM Unit) : OpBody
  | [a, b, c, d, e, g] => some (f a b c d e g)
  | _ => none

/-- A function `PPCInterpreter::op_…`: its name in the table, the form whose
fields its parameters are, and its body. -/
structure Op where
  name : String
  form : String
  params : List String
  body : Config → OpBody

/-- The functions. -/
def ops : List Op :=
  [⟨"add", "XO", ["RA", "RB", "RT", "Rc", "OE"], fun _ => op5 opAdd⟩,
   ⟨"addc", "XO", ["RA", "RB", "RT", "Rc", "OE"], fun _ => op5 opAddc⟩,
   ⟨"adde", "XO", ["RA", "RB", "RT", "Rc", "OE"], fun _ => op5 opAdde⟩,
   ⟨"addi", "D", ["RA0", "SI", "RT"], fun _ => op3 opAddi⟩,
   ⟨"addis", "D", ["RA0", "SI", "RT"], fun _ => op3 opAddis⟩,
   ⟨"addic", "D", ["RA", "SI", "RT"], fun _ => op3 opAddic⟩,
   ⟨"addic_rc", "D", ["RA", "SI", "RT"], fun _ => op3 opAddicRc⟩,
   ⟨"addme", "XO", ["RA", "RT", "Rc", "OE"], fun _ => op4 opAddme⟩,
   ⟨"addze", "XO", ["RA", "RT", "Rc", "OE"], fun _ => op4 opAddze⟩,
   ⟨"divw", "XO", ["RA", "RB", "RT", "Rc", "OE"], fun _ => op5 opDivw⟩,
   ⟨"divwu", "XO", ["RA", "RB", "RT", "Rc", "OE"], fun _ => op5 opDivwu⟩,
   ⟨"mulhw", "X", ["RA", "RB", "RT", "Rc"], fun _ => op4 opMulhw⟩,
   ⟨"mulhwu", "X", ["RA", "RB", "RT", "Rc"], fun _ => op4 opMulhwu⟩,
   ⟨"mulli", "D", ["RA", "SI", "RT"], fun _ => op3 opMulli⟩,
   ⟨"mullw", "XO", ["RA", "RB", "RT", "Rc", "OE"], fun _ => op5 opMullw⟩,
   ⟨"neg", "XO", ["RA", "RT", "Rc", "OE"], fun _ => op4 opNeg⟩,
   ⟨"subf", "XO", ["RA", "RB", "RT", "Rc", "OE"], fun _ => op5 opSubf⟩,
   ⟨"subfc", "XO", ["RA", "RB", "RT", "Rc", "OE"], fun _ => op5 opSubfc⟩,
   ⟨"subfe", "XO", ["RA", "RB", "RT", "Rc", "OE"], fun _ => op5 opSubfe⟩,
   ⟨"subfic", "D", ["RA", "SI", "RT"], fun _ => op3 opSubfic⟩,
   ⟨"subfme", "XO", ["RA", "RT", "Rc", "OE"], fun _ => op4 opSubfme⟩,
   ⟨"subfze", "XO", ["RA", "RT", "Rc", "OE"], fun _ => op4 opSubfze⟩,
   ⟨"and", "X", ["RS", "RB", "RA", "Rc"], fun _ => op4 opAnd⟩,
   ⟨"andc", "X", ["RS", "RB", "RA", "Rc"], fun _ => op4 opAndc⟩,
   ⟨"andi_rc", "D", ["RS", "UI", "RA"], fun _ => op3 opAndiRc⟩,
   ⟨"andis_rc", "D", ["RS", "UI", "RA"], fun _ => op3 opAndisRc⟩,
   ⟨"cntlzw", "X", ["RS", "RA", "Rc"], fun _ => op3 opCntlzw⟩,
   ⟨"eqv", "X", ["RS", "RB", "RA", "Rc"], fun _ => op4 opEqv⟩,
   ⟨"extsb", "X", ["RS", "RA", "Rc"], fun _ => op3 opExtsb⟩,
   ⟨"extsh", "X", ["RS", "RA", "Rc"], fun _ => op3 opExtsh⟩,
   ⟨"nand", "X", ["RS", "RB", "RA", "Rc"], fun _ => op4 opNand⟩,
   ⟨"nor", "X", ["RS", "RB", "RA", "Rc"], fun _ => op4 opNor⟩,
   ⟨"or", "X", ["RS", "RB", "RA", "Rc"], fun _ => op4 opOr⟩,
   ⟨"orc", "X", ["RS", "RB", "RA", "Rc"], fun _ => op4 opOrc⟩,
   ⟨"ori", "D", ["RS", "UI", "RA"], fun _ => op3 opOri⟩,
   ⟨"oris", "D", ["RS", "UI", "RA"], fun _ => op3 opOris⟩,
   ⟨"rlwimi", "M", ["RA", "RS", "SH", "MB", "ME", "Rc"], fun _ => op6 opRlwimi⟩,
   ⟨"rlwinm", "M", ["RS", "SH", "MB", "ME", "RA", "Rc"], fun _ => op6 opRlwinm⟩,
   ⟨"rlwnm", "M", ["RB", "RS", "MB", "ME", "RA", "Rc"], fun _ => op6 opRlwnm⟩,
   ⟨"slw", "X", ["RS", "RB", "RA", "Rc"], fun _ => op4 opSlw⟩,
   ⟨"sraw", "X", ["RS", "RB", "RA", "Rc"], fun _ => op4 opSraw⟩,
   ⟨"srawi", "X", ["RS", "SH", "RA", "Rc"], fun _ => op4 opSrawi⟩,
   ⟨"srw", "X", ["RS", "RB", "RA", "Rc"], fun _ => op4 opSrw⟩,
   ⟨"xor", "X", ["RS", "RB", "RA", "Rc"], fun _ => op4 opXor⟩,
   ⟨"xori", "D", ["RS", "UI", "RA"], fun _ => op3 opXori⟩,
   ⟨"xoris", "D", ["RS", "UI", "RA"], fun _ => op3 opXoris⟩,
   ⟨"cmp", "X", ["BF", "RA", "RB"], fun _ => op3 opCmp⟩,
   ⟨"cmpi", "D", ["BF", "RA", "SI"], fun _ => op3 opCmpi⟩,
   ⟨"cmpl", "X", ["BF", "RA", "RB"], fun _ => op3 opCmpl⟩,
   ⟨"cmpli", "D", ["BF", "RA", "UI"], fun _ => op3 opCmpli⟩,
   ⟨"crand", "XL", ["BT", "BA", "BB"], fun _ => op3 opCrand⟩,
   ⟨"crandc", "XL", ["BT", "BA", "BB"], fun _ => op3 opCrandc⟩,
   ⟨"creqv", "XL", ["BT", "BA", "BB"], fun _ => op3 opCreqv⟩,
   ⟨"crnand", "XL", ["BT", "BA", "BB"], fun _ => op3 opCrnand⟩,
   ⟨"crnor", "XL", ["BT", "BA", "BB"], fun _ => op3 opCrnor⟩,
   ⟨"cror", "XL", ["BT", "BA", "BB"], fun _ => op3 opCror⟩,
   ⟨"crorc", "XL", ["BT", "BA", "BB"], fun _ => op3 opCrorc⟩,
   ⟨"crxor", "XL", ["BT", "BA", "BB"], fun _ => op3 opCrxor⟩,
   ⟨"mcrf", "XL", ["BF", "BFA"], fun _ => op2 opMcrf⟩, ⟨"mcrxr", "X", ["BF"], fun _ => op1 opMcrxr⟩,
   ⟨"mfcr", "XFX", ["RT"], fun _ => op1 opMfcr⟩,
   ⟨"mtcrf", "XFX", ["FXM", "RS"], fun _ => op2 opMtcrf⟩,
   ⟨"b", "I", ["LI", "AA", "LK"], fun _ => op3 opB⟩,
   ⟨"bc", "B", ["BO", "BI", "BD", "AA", "LK"], fun _ => op5 opBc⟩,
   ⟨"bclr", "XL", ["BO", "BI", "BH", "LK"], fun _ => op4 opBclr⟩,
   ⟨"bcctr", "XL", ["BO", "BI", "BH", "LK"], fun _ => op4 opBcctr⟩,
   ⟨"sc", "SC", ["LEV"], fun _ => op1 opSc⟩, ⟨"tw", "X", ["TO", "RA", "RB"], fun _ => op3 opTw⟩,
   ⟨"twi", "D", ["TO", "RA", "SI"], fun _ => op3 opTwi⟩,
   ⟨"lbz", "D", ["RA0", "D", "RT"], fun c => op3 (opLbz c)⟩,
   ⟨"lbzu", "D", ["RA", "D", "RT"], fun c => op3 (opLbzu c)⟩,
   ⟨"lbzx", "X", ["RA0", "RB", "RT"], fun c => op3 (opLbzx c)⟩,
   ⟨"lbzux", "X", ["RA", "RB", "RT"], fun c => op3 (opLbzux c)⟩,
   ⟨"lha", "D", ["RA0", "D", "RT"], fun c => op3 (opLha c)⟩,
   ⟨"lhau", "D", ["RA", "D", "RT"], fun c => op3 (opLhau c)⟩,
   ⟨"lhax", "X", ["RA0", "RB", "RT"], fun c => op3 (opLhax c)⟩,
   ⟨"lhaux", "X", ["RA", "RB", "RT"], fun c => op3 (opLhaux c)⟩,
   ⟨"lhbrx", "X", ["RA0", "RB", "RT"], fun c => op3 (opLhbrx c)⟩,
   ⟨"lhz", "D", ["RA0", "D", "RT"], fun c => op3 (opLhz c)⟩,
   ⟨"lhzu", "D", ["RA", "D", "RT"], fun c => op3 (opLhzu c)⟩,
   ⟨"lhzx", "X", ["RA0", "RB", "RT"], fun c => op3 (opLhzx c)⟩,
   ⟨"lhzux", "X", ["RA", "RB", "RT"], fun c => op3 (opLhzux c)⟩,
   ⟨"lwbrx", "X", ["RA0", "RB", "RT"], fun c => op3 (opLwbrx c)⟩,
   ⟨"lwz", "D", ["RA0", "D", "RT"], fun c => op3 (opLwz c)⟩,
   ⟨"lwzu", "D", ["RA", "D", "RT"], fun c => op3 (opLwzu c)⟩,
   ⟨"lwzx", "X", ["RA0", "RB", "RT"], fun c => op3 (opLwzx c)⟩,
   ⟨"lwzux", "X", ["RA", "RB", "RT"], fun c => op3 (opLwzux c)⟩,
   ⟨"stb", "D", ["RS", "RA0", "D"], fun c => op3 (opStb c)⟩,
   ⟨"stbu", "D", ["RS", "RA", "D"], fun c => op3 (opStbu c)⟩,
   ⟨"stbx", "X", ["RS", "RA0", "RB"], fun c => op3 (opStbx c)⟩,
   ⟨"stbux", "X", ["RS", "RA", "RB"], fun c => op3 (opStbux c)⟩,
   ⟨"sth", "D", ["RS", "RA0", "D"], fun c => op3 (opSth c)⟩,
   ⟨"sthbrx", "X", ["RS", "RA0", "RB"], fun c => op3 (opSthbrx c)⟩,
   ⟨"sthu", "D", ["RS", "RA", "D"], fun c => op3 (opSthu c)⟩,
   ⟨"sthx", "X", ["RS", "RA0", "RB"], fun c => op3 (opSthx c)⟩,
   ⟨"sthux", "X", ["RS", "RA", "RB"], fun c => op3 (opSthux c)⟩,
   ⟨"stw", "D", ["RS", "RA0", "D"], fun c => op3 (opStw c)⟩,
   ⟨"stwbrx", "X", ["RS", "RA0", "RB"], fun c => op3 (opStwbrx c)⟩,
   ⟨"stwu", "D", ["RS", "RA", "D"], fun c => op3 (opStwu c)⟩,
   ⟨"stwx", "X", ["RS", "RA0", "RB"], fun c => op3 (opStwx c)⟩,
   ⟨"stwux", "X", ["RS", "RA", "RB"], fun c => op3 (opStwux c)⟩,
   ⟨"lwarx", "X", ["RA0", "RB", "EH", "RT"], fun c => op4 (opLwarx c)⟩,
   ⟨"stwcx", "X", ["RS", "RA0", "RB"], fun c => op3 (opStwcx c)⟩,
   ⟨"dcbi", "X", ["RA0", "RB"], fun c => op2 (opDcbi c)⟩,
   ⟨"dcbf", "X", ["RA0", "RB"], fun c => op2 (opDcbf c)⟩,
   ⟨"dcbst", "X", ["RA0", "RB"], fun c => op2 (opDcbst c)⟩,
   ⟨"dcbz", "X", ["RA0", "RB"], fun c => op2 (opDcbz c)⟩,
   ⟨"dcba", "X", ["RA0", "RB"], fun _ => op2 opDcba⟩,
   ⟨"dcbt", "X", ["RA0", "RB", "TH"], fun _ => op3 opDcbt⟩,
   ⟨"dcbtst", "X", ["RA0", "RB", "TH"], fun _ => op3 opDcbtst⟩,
   ⟨"icbi", "X", ["RA0", "RB"], fun c => op2 (opIcbi c)⟩,
   ⟨"icbt", "X", ["CT", "RA0", "RB"], fun _ => op3 opIcbt⟩,
   ⟨"lmw", "D", ["RT", "D", "RA0"], fun c => op3 (opLmw c)⟩,
   ⟨"stmw", "D", ["RS", "D", "RA0"], fun c => op3 (opStmw c)⟩,
   ⟨"lswi", "X", ["RT", "RA0", "NB"], fun c => op3 (opLswi c)⟩,
   ⟨"lswx", "X", ["RT", "RA0", "RB"], fun c => op3 (opLswx c)⟩,
   ⟨"stswi", "X", ["RS", "RA0", "NB"], fun c => op3 (opStswi c)⟩,
   ⟨"stswx", "X", ["RS", "RA0", "RB"], fun c => op3 (opStswx c)⟩,
   ⟨"eieio", "X", [], fun _ => op0 opEieio⟩, ⟨"isync", "XL", [], fun _ => op0 opIsync⟩,
   ⟨"sync", "X", ["L", "E"], fun _ => op2 opSync⟩, ⟨"mfmsr", "X", ["RT"], fun _ => op1 opMfmsr⟩,
   ⟨"mfspr", "XFX", ["spr", "RT"], fun _ => op2 opMfspr⟩,
   ⟨"mftb", "XFX", ["spr", "RT"], fun _ => op2 opMftb⟩,
   ⟨"DEBUG", "X", ["RA"], fun _ => op1 opDEBUG⟩, ⟨"mfsr", "X", ["SR", "RT"], fun _ => op2 opMfsr⟩,
   ⟨"mfsrin", "X", ["RB", "RT"], fun _ => op2 opMfsrin⟩,
   ⟨"tlbsync", "X", [], fun _ => op0 opTlbsync⟩, ⟨"mtmsr", "X", ["RS"], fun _ => op1 opMtmsr⟩,
   ⟨"mtspr", "XFX", ["spr", "RS"], fun _ => op2 opMtspr⟩, ⟨"rfi", "XL", [], fun _ => op0 opRfi⟩,
   ⟨"mtsr", "X", ["SR", "RS"], fun _ => op2 opMtsr⟩,
   ⟨"mtsrin", "X", ["RS", "RB"], fun _ => op2 opMtsrin⟩,
   ⟨"tlbie", "X", ["RB", "L"], fun _ => op2 opTlbie⟩,
   ⟨"tlbiel", "X", ["RB", "L"], fun _ => op2 opTlbiel⟩, ⟨"tlbia", "X", [], fun _ => op0 opTlbia⟩]

/-- A value as an argument of a type. -/
def convert : String → ℤ → Reg
  | "s16", v => (BitVec.ofInt 16 v).signExtend 32
  | "u16", v => (BitVec.ofInt 16 v).setWidth 32
  | "u8", v => (BitVec.ofInt 8 v).setWidth 32
  | _, v => BitVec.ofInt 32 v

/-- The call of a function with values, which its prototype converts. -/
def Op.call (c : Config) (o : Op) (values : List ℤ) : Option (InterpM Unit) :=
  o.body c (List.zipWith (fun i v => convert (paramType i) v) o.params values)

/-- The call that decoding a word comes to. -/
def invoke (c : Config) : Decoded Invocation → Option (InterpM Unit)
  | .op i => (ops.find? (·.name == i.op)).bind fun o => o.call c i.args
  | .unk _ => some opUnk
  | .illFormed => none

/-- What a function is called with for a word. -/
def Op.args (o : Op) (w : BitVec 32) : List Reg :=
  o.params.map fun i => ((fieldsOf o.form).lookup i).elim 0 (·.reg w)

/-- The parameter of a type that a function takes from a register: of a
narrow one it takes no more than its own bits. -/
def taken : String → Reg → Reg
  | "s16", r => (r.setWidth 16).signExtend 32
  | "u16", r => (r.setWidth 16).setWidth 32
  | "u8", r => (r.setWidth 8).setWidth 32
  | _, r => r

/-- What the code of a planted call puts in a register for a value of a
type. -/
def plant : String → ℤ → Reg
  | "s16", v => (BitVec.ofInt 16 v).setWidth 32
  | "u16", v => (BitVec.ofInt 16 v).setWidth 32
  | "u8", v => (BitVec.ofInt 8 v).setWidth 32
  | _, v => BitVec.ofInt 32 v

/-- The types that there is a `generate_call` of. -/
def generators : List (List String) :=
  [[], ["int"], ["int", "int"], ["int", "int", "int"], ["int", "int", "int", "int"],
    ["int", "int", "int", "int", "int"], ["int", "int", "int", "int", "int", "int"],
    ["int", "int", "s16"], ["int", "int", "u16"], ["int", "s16", "int"], ["int", "u16", "int"],
    ["u32", "int", "int"], ["u8"], ["u32"]]

/-- The registers of a planted call, if there is a routine that plants it. -/
def Planted.regs (p : Planted) : Option (List Reg) :=
  if p.types ∈ generators then some (List.zipWith plant p.types p.args) else none

/-- A function entered with registers. -/
def Op.entered (c : Config) (o : Op) (regs : List Reg) : Option (InterpM Unit) :=
  o.body c (List.zipWith (fun i r => taken (paramType i) r) o.params regs)

/-- The call that is made where one was planted. -/
def runPlanted (c : Config) : Decoded Planted → Option (InterpM Unit)
  | .op p => (ops.find? (·.name == p.op)).bind fun o => p.regs.bind (o.entered c)
  | .unk _ => some opUnk
  | .illFormed => none

end MrIss.MkDecode
