import IntvNetplay.Machine.Cells

/-!
# Addresses

The cells of `src/ram.asm`, `src/exec_equ.asm` and the mailbox registers of
`src/netcode/mailbox.asm` that the modelled routines touch, under the source's names, and the width
of the cell at an address: the console's scratch RAM `$0100-$01FF`, the cart RAM and the mailbox
`$8000-$9FFF` hold bytes, everything else words.
-/

namespace IntvNetplay.Console

open IntvNetplay.Machine

/-- The width of the cell at an address. -/
def cellBits (a : ℕ) : ℕ :=
  if 0x0100 ≤ a ∧ a < 0x0200 ∨ 0x8000 ≤ a ∧ a < 0xA000 then 8 else 16

/-- The console's memory. -/
abbrev Mem := Cells cellBits

theorem zero_lt_cell (a : ℕ) : 0 < 2 ^ cellBits a := Nat.two_pow_pos _

/-! ### EXEC cells -/

@[simp] abbrev execIsr : ℕ := 0x0100
@[simp] abbrev execPhase : ℕ := 0x0102
@[simp] abbrev scPasslen : ℕ := 0x0103
@[simp] abbrev execInL : ℕ := 0x011F
@[simp] abbrev execInR : ℕ := 0x0120
@[simp] abbrev execKpL : ℕ := 0x0121
@[simp] abbrev execKpR : ℕ := 0x0122
@[simp] abbrev sbCnt2Lo : ℕ := 0x0129
@[simp] abbrev sbCnt2Hi : ℕ := 0x012A
@[simp] abbrev gameScratch : ℕ := 0x015D
@[simp] abbrev sbPhase : ℕ := 0x0164
@[simp] abbrev backtab : ℕ := 0x0200
@[simp] abbrev objectTable : ℕ := 0x031D
@[simp] abbrev execHtbl : ℕ := 0x035D
@[simp] abbrev execIsrDef : ℕ := 0x1126

/-! ### Netcode RAM -/

@[simp] abbrev netRam : ℕ := 0x8080
@[simp] abbrev netRamSize : ℕ := 0x0180
@[simp] abbrev resyncHold : ℕ := 0x8090
@[simp] abbrev rsRLo : ℕ := 0x8091
@[simp] abbrev rsRHi : ℕ := 0x8092
@[simp] abbrev rsToLo : ℕ := 0x8093
@[simp] abbrev rsToHi : ℕ := 0x8094
@[simp] abbrev rsTmp : ℕ := 0x8095
@[simp] abbrev rsPosLo : ℕ := 0x8096
@[simp] abbrev rsPosHi : ℕ := 0x8097
@[simp] abbrev rsTmp2 : ℕ := 0x8098
@[simp] abbrev gameTblLo : ℕ := 0x80C0
@[simp] abbrev gameTblHi : ℕ := 0x80C1
@[simp] abbrev vdTmp : ℕ := 0x80C2
@[simp] abbrev vdSide : ℕ := 0x80C3
@[simp] abbrev vdCur : ℕ := 0x80C4
@[simp] abbrev vdPrev : ℕ := 0x80C5
@[simp] abbrev vdKp : ℕ := 0x80C6
@[simp] abbrev vdKppre : ℕ := 0x80C7
@[simp] abbrev rsSpare0 : ℕ := 0x8102
@[simp] abbrev delayEn : ℕ := 0x8105
@[simp] abbrev rngLo : ℕ := 0x8106
@[simp] abbrev rngHi : ℕ := 0x8107
@[simp] abbrev tickLo : ℕ := 0x8108
@[simp] abbrev tickHi : ℕ := 0x8109
@[simp] abbrev rsSpare1 : ℕ := 0x810F
@[simp] abbrev mbDev : ℕ := 0x8114
@[simp] abbrev mbCmd : ℕ := 0x8115
@[simp] abbrev mbNparam : ℕ := 0x8116
@[simp] abbrev mbTxlenLo : ℕ := 0x8117
@[simp] abbrev mbTxlenHi : ℕ := 0x8118
@[simp] abbrev mbOk : ℕ := 0x8119
@[simp] abbrev mbErr : ℕ := 0x811A
@[simp] abbrev mbPmaxLo : ℕ := 0x811B
@[simp] abbrev mbPmaxHi : ℕ := 0x811C
@[simp] abbrev navailLo : ℕ := 0x811D
@[simp] abbrev navailHi : ℕ := 0x811E
@[simp] abbrev nreqLo : ℕ := 0x8130
@[simp] abbrev nreqHi : ℕ := 0x8131
@[simp] abbrev ngotLo : ℕ := 0x8132
@[simp] abbrev ngotHi : ℕ := 0x8133
@[simp] abbrev rxWr : ℕ := 0x8134
@[simp] abbrev rxRd : ℕ := 0x8135
@[simp] abbrev shadowCtrl : ℕ := 0x8140
@[simp] abbrev shadowCtrlR : ℕ := 0x8141
@[simp] abbrev shadowKp : ℕ := 0x8142
@[simp] abbrev shadowKpR : ℕ := 0x8143
@[simp] abbrev nameBuf : ℕ := 0x8150
@[simp] abbrev nameLen : ℕ := 0x8159
@[simp] abbrev menuSel : ℕ := 0x815A
@[simp] abbrev menuPrev : ℕ := 0x815B
@[simp] abbrev lobbyCnt : ℕ := 0x815C
@[simp] abbrev sesTmrLo : ℕ := 0x815D
@[simp] abbrev netSeat : ℕ := 0x8160
@[simp] abbrev netDelay : ℕ := 0x8161
@[simp] abbrev netActive : ℕ := 0x8162
@[simp] abbrev netDropped : ℕ := 0x8163
@[simp] abbrev lsTmpb : ℕ := 0x8168
@[simp] abbrev lsTmpb2 : ℕ := 0x8169
@[simp] abbrev lsFroze : ℕ := 0x816A
@[simp] abbrev lsSave102 : ℕ := 0x816B
@[simp] abbrev lsWaitcLo : ℕ := 0x816C
@[simp] abbrev lsWaitcHi : ℕ := 0x816D
@[simp] abbrev ppTmp : ℕ := 0x816E
@[simp] abbrev sesSave102 : ℕ := 0x816F
@[simp] abbrev diagSlip : ℕ := 0x8180
@[simp] abbrev diagRej : ℕ := 0x8181
@[simp] abbrev diagTmo : ℕ := 0x8182
@[simp] abbrev diagErr : ℕ := 0x8183
@[simp] abbrev peerScr : ℕ := 0x8185
@[simp] abbrev peerWhy : ℕ := 0x8186
@[simp] abbrev rsPend : ℕ := 0x8187
@[simp] abbrev rsPtmo : ℕ := 0x8188
@[simp] abbrev rsWaited : ℕ := 0x8189
@[simp] abbrev rsGate : ℕ := 0x818A
@[simp] abbrev uiColor : ℕ := 0x818B
@[simp] abbrev scCnt2 : ℕ := 0x8196
@[simp] abbrev scCnt3 : ℕ := 0x8197
@[simp] abbrev scCnt4 : ℕ := 0x8198
@[simp] abbrev rsSpare2 : ℕ := 0x8199
@[simp] abbrev rsSpare3 : ℕ := 0x819A
@[simp] abbrev rsSpare4 : ℕ := 0x819B
@[simp] abbrev netCount : ℕ := 0x819D
@[simp] abbrev arbSeat : ℕ := 0x819E
@[simp] abbrev rsSpare5 : ℕ := 0x819F
@[simp] abbrev seatWm : ℕ := 0x81A0
@[simp] abbrev vdCtrl : ℕ := 0x81A8
@[simp] abbrev roomCnt : ℕ := 0x81AA
@[simp] abbrev roomHost : ℕ := 0x81AB
@[simp] abbrev leftSeat : ℕ := 0x81AC
@[simp] abbrev scIsrSave : ℕ := 0x81AD
@[simp] abbrev sbQuiescent : ℕ := 0x81AF
@[simp] abbrev leftName : ℕ := 0x81B0
@[simp] abbrev nameTbl : ℕ := 0x81C0
@[simp] abbrev rxacc : ℕ := 0x8200
@[simp] abbrev frmbuf : ℕ := 0x8300
@[simp] abbrev lobbyCache : ℕ := 0x8380
@[simp] abbrev seatRing : ℕ := 0x8400
@[simp] abbrev seatKp : ℕ := 0x8800
@[simp] abbrev ownCrc : ℕ := 0x8C00
@[simp] abbrev scPhase : ℕ := sbQuiescent
@[simp] abbrev scPhaseDead : ℕ := 0x01

/-! ### Mailbox registers -/

@[simp] abbrev fnSeq : ℕ := 0x9C03
@[simp] abbrev fnAckseq : ℕ := 0x9C04
@[simp] abbrev fnDevice : ℕ := 0x9C05
@[simp] abbrev fnCmd : ℕ := 0x9C06
@[simp] abbrev fnNparam : ℕ := 0x9C07
@[simp] abbrev fnTxlenLo : ℕ := 0x9C08
@[simp] abbrev fnTxlenHi : ℕ := 0x9C09
@[simp] abbrev fnErr : ℕ := 0x9C0B
@[simp] abbrev fnRxlenLo : ℕ := 0x9C0C
@[simp] abbrev fnRxlenHi : ℕ := 0x9C0D
@[simp] abbrev fnReplyCmd : ℕ := 0x9C0E
@[simp] abbrev fnParamSize : ℕ := 0x9C10
@[simp] abbrev fnParamVal : ℕ := 0x9C20
@[simp] abbrev fnTx : ℕ := 0x9C40
@[simp] abbrev fnRx : ℕ := 0x9D40

/-! ### Widths -/

theorem cellBits_byte {a : ℕ} (h : 0x0100 ≤ a ∧ a < 0x0200 ∨ 0x8000 ≤ a ∧ a < 0xA000) :
    cellBits a = 8 := if_pos h

theorem cellBits_cart {a : ℕ} (h : 0x8000 ≤ a) (h' : a < 0xA000) : cellBits a = 8 :=
  cellBits_byte (Or.inr ⟨h, h'⟩)

end IntvNetplay.Console
