import NsShaft.Prog.Command
import NsShaft.Usb.ListDone

namespace NsShaft.Firmware

open Prog

/-!
# `usb.c` and `main.c` — the USB host firmware

The firmware reaches the controller only by `IO_write` and `IO_read` on its four HPI registers, and
hands the key code to the FPGA by one `IOWR`.  Each function of the two files is a command over the
variables of `main`; the controller is the environment that answers every `IO_read`.

* `submitList` — words written from 0x0500 on, then handed to the controller.
* `usbSetAddress`, …, `usbGetReportDesc` — the nine requests of the enumeration.
* `usbWaitTDListDone`, `usbGetRetryCnt` — waiting for the controller.
* `enumStep` — a request, repeated until the controller has a message, and its outcome.
* `main` — the whole program.
-/

/-! ### Registers and constants -/

/-- The HPI registers. -/
def hpiData : BitVec 8 := 0
def hpiMailbox : BitVec 8 := 1
def hpiAddr : BitVec 8 := 2
def hpiStatus : BitVec 8 := 3

/-- Registers in the memory of the controller. -/
def hpiIrqRoutingReg : BitVec 16 := 0x0142
def hpiSie2MsgAdr : BitVec 16 := 0x0148
def husbSie1pCurrentTDPtr : BitVec 16 := 0x01b0
def husbPEOT : BitVec 16 := 0x01b4
def commIntNum : BitVec 16 := 0x01c2
def commR0 : BitVec 16 := 0x01c4
def commR1 : BitVec 16 := 0x01c6
def commR2 : BitVec 16 := 0x01c8
def commR3 : BitVec 16 := 0x01ca
def commR4 : BitVec 16 := 0x01cc
def commR5 : BitVec 16 := 0x01ce
def commR6 : BitVec 16 := 0x01d0
def commR7 : BitVec 16 := 0x01d2
def commR8 : BitVec 16 := 0x01d4
def commR9 : BitVec 16 := 0x01d6
def commR10 : BitVec 16 := 0x01d8
def commR11 : BitVec 16 := 0x01da
def commR12 : BitVec 16 := 0x01dc
def commR13 : BitVec 16 := 0x01de
def usb1CtlReg : BitVec 16 := 0xc08a
def host1IrqEnReg : BitVec 16 := 0xc08c
def host1StatReg : BitVec 16 := 0xc090
def host2StatReg : BitVec 16 := 0xc0b0

/-- Words for the mailbox, and the answer of the controller. -/
def commReset : BitVec 16 := 0xfa50
def commExecInt : BitVec 16 := 0xce01
def commAck : BitVec 16 := 0x0fed
def husbSie1InitInt : BitVec 16 := 0x0072
def husbResetInt : BitVec 16 := 0x0074

/-- Bits of registers. -/
def hpiStatusSie1msgFlag : BitVec 16 := 0x0010
def aDpStat : BitVec 16 := 0x2000
def aDmStat : BitVec 16 := 0x1000
def sofeop1ToCpuEn : BitVec 16 := 0x0400
def resume1ToHpiEn : BitVec 16 := 0x0040
def aChgIrqEn : BitVec 16 := 0x0010
def sofEopIrqEn : BitVec 16 := 0x0200

/-! ### Variables and accesses -/

/-- The variables of `main`, the value of an `IO_read` that no variable takes, and the variable
    `usb_ctl_val` of the functions that return it. -/
structure Vars where
  intStat : BitVec 16
  usbCtlVal : BitVec 16
  ctlReg : BitVec 16
  noDevice : BitVec 16
  fsDevice : BitVec 16
  keycode : BitVec 32
  toggle : BitVec 8
  dataSize : BitVec 8
  hotPlugCount : BitVec 8
  code : BitVec 16
  ioVal : BitVec 16
  retVal : BitVec 16
deriving DecidableEq, Repr

/-- What the firmware sends: the stores of `IO_init`, a word for an HPI register, or the key code
    for the port at `KEYCODE_BASE`. -/
inductive Out where
  | init
  | io (address : BitVec 8) (data : BitVec 16)
  | keycode (value : BitVec 32)
deriving DecidableEq, Repr

/-- Commands of the firmware.  The questions are the HPI registers that `IO_read` reads. -/
abbrev Code := Cmd Vars Out (BitVec 8) (BitVec 16)

/-- What the controller has been told and has answered. -/
abbrev IoEvent := Event Out (BitVec 8) (BitVec 16)

def ioInit : Code := .send fun _ => .init

/-- `IO_write`, with a word that depends on the variables. -/
def ioWriteOf (address : BitVec 8) (data : Vars → BitVec 16) : Code :=
  .send fun x => .io address (data x)

/-- `IO_write`. -/
def ioWrite (address : BitVec 8) (data : BitVec 16) : Code := ioWriteOf address fun _ => data

/-- `IO_read`, with what happens to the word. -/
def ioReadTo (address : BitVec 8) (store : Vars → BitVec 16 → Vars) : Code :=
  .ask (fun _ => address) store

def setIoVal (x : Vars) (v : BitVec 16) : Vars := { x with ioVal := v }
def setUsbCtlVal (x : Vars) (v : BitVec 16) : Vars := { x with usbCtlVal := v }
def setRetVal (x : Vars) (v : BitVec 16) : Vars := { x with retVal := v }

/-- `IO_read` for a condition, a `printf`, or nothing. -/
def ioRead (address : BitVec 8) : Code := ioReadTo address setIoVal

/-- `UsbWrite`. -/
def usbWriteOf (address : BitVec 16) (data : Vars → BitVec 16) : Code :=
  .block [ioWrite hpiAddr address, ioWriteOf hpiData data]

def usbWrite (address data : BitVec 16) : Code := usbWriteOf address fun _ => data

/-- `UsbRead`. -/
def usbReadOf (address : Vars → BitVec 16) (store : Vars → BitVec 16 → Vars) : Code :=
  .block [ioWriteOf hpiAddr address, ioReadTo hpiData store]

def usbReadTo (address : BitVec 16) (store : Vars → BitVec 16 → Vars) : Code :=
  usbReadOf (fun _ => address) store

def usbRead (address : BitVec 16) : Code := usbReadTo address setIoVal

/-- `UsbSoftReset`. -/
def usbSoftReset : Code :=
  .block
    [ioWrite hpiMailbox commReset,
      ioRead hpiMailbox,
      ioRead hpiStatus,
      usbRead hpiSie1MsgAdr,
      usbWrite hpiSie1MsgAdr 0,
      usbRead hpiSie2MsgAdr,
      usbWrite hpiSie2MsgAdr 0,
      usbWrite host1StatReg 0xffff,
      usbWrite host2StatReg 0xffff]

/-! ### The requests -/

/-- `IO_write(HPI_ADDR,0x0500)`, one `IO_write(HPI_DATA,…)` a word, and
    `UsbWrite(HUSB_SIE1_pCurrentTDPtr,0x0500)`. -/
def submitList (words : List (BitVec 16)) : Code :=
  .block
    [ioWrite hpiAddr 0x0500,
      .block (words.map (ioWrite hpiData)),
      usbWrite husbSie1pCurrentTDPtr 0x0500]

/-- `UsbSetAddress`. -/
def usbSetAddress : Code := submitList
  [0x050c, 0x0008, 0x00d0, 0x0001, 0x0013, 0x0514,
    0x0500, 0x0002, 0x0000, 0x0000,
    0x0000, 0x0000, 0x0090, 0x0041, 0x0013, 0x0000]

/-- `UsbGetDeviceDesc1`. -/
def usbGetDeviceDesc1 : Code := submitList
  [0x050c, 0x0008, 0x02d0, 0x0001, 0x0013, 0x0514,
    0x0680, 0x0100, 0x0000, 0x0008,
    0x052c, 0x0008, 0x0290, 0x0041, 0x0013, 0x0520,
    0x0000, 0x0000, 0x0210, 0x0041, 0x0013, 0x0000]

/-- `UsbGetDeviceDesc2`. -/
def usbGetDeviceDesc2 : Code := submitList
  [0x050c, 0x0008, 0x02d0, 0x0001, 0x0013, 0x0514,
    0x0680, 0x0100, 0x0000, 0x0012,
    0x0544, 0x0008, 0x0290, 0x0041, 0x0013, 0x0520,
    0x054c, 0x0008, 0x0290, 0x0001, 0x0013, 0x052c,
    0x0554, 0x0002, 0x0290, 0x0041, 0x0013, 0x0538,
    0x0000, 0x0000, 0x0210, 0x0041, 0x0013, 0x0000]

/-- `UsbGetConfigDesc1`. -/
def usbGetConfigDesc1 : Code := submitList
  [0x050c, 0x0008, 0x02d0, 0x0001, 0x0013, 0x0514,
    0x0680, 0x0200, 0x0000, 0x0009,
    0x0544, 0x0008, 0x0290, 0x0041, 0x0013, 0x0520,
    0x054c, 0x0001, 0x0290, 0x0001, 0x0013, 0x052c,
    0x0000, 0x0000, 0x0210, 0x0041, 0x0013, 0x0000]

/-- `UsbGetConfigDesc2`. -/
def usbGetConfigDesc2 : Code := submitList
  [0x050c, 0x0008, 0x02d0, 0x0001, 0x0013, 0x0514,
    0x0680, 0x0200, 0x0000, 0x00ff,
    0x055c, 0x0008, 0x0290, 0x0041, 0x0013, 0x0520,
    0x0564, 0x0008, 0x0290, 0x0001, 0x0013, 0x052c,
    0x056c, 0x0008, 0x0290, 0x0041, 0x0013, 0x0538,
    0x0574, 0x0008, 0x0290, 0x0001, 0x0013, 0x0544,
    0x057c, 0x0002, 0x0290, 0x0041, 0x0013, 0x0550,
    0x0000, 0x0000, 0x0210, 0x0041, 0x0013, 0x0000]

/-- `UsbSetConfig`. -/
def usbSetConfig : Code := submitList
  [0x050c, 0x0008, 0x02d0, 0x0001, 0x0013, 0x0514,
    0x0900, 0x0001, 0x0000, 0x0000,
    0x0000, 0x0000, 0x0290, 0x0041, 0x0013, 0x0000]

/-- `UsbClassRequest`. -/
def usbClassRequest : Code := submitList
  [0x050c, 0x0008, 0x02d0, 0x0001, 0x0013, 0x0514,
    0x0a21, 0x0000, 0x0000, 0x0000,
    0x0000, 0x0000, 0x0290, 0x0041, 0x0013, 0x0000]

/-- `UsbGetHidDesc`. -/
def usbGetHidDesc : Code := submitList
  [0x050c, 0x0008, 0x02d0, 0x0001, 0x0013, 0x0514,
    0x0681, 0x2100, 0x0000, 0x007b,
    0x0544, 0x0008, 0x0290, 0x0041, 0x0013, 0x0520,
    0x0000, 0x0000, 0x0210, 0x0041, 0x0013, 0x0000]

/-- `UsbGetReportDesc`. -/
def usbGetReportDesc : Code := submitList
  [0x050c, 0x0008, 0x02d0, 0x0001, 0x0013, 0x0514,
    0x0681, 0x2200, 0x0000, 0x007b,
    0x0580, 0x0008, 0x0290, 0x0041, 0x0013, 0x0520,
    0x0588, 0x0008, 0x0290, 0x0001, 0x0013, 0x052c,
    0x0590, 0x0008, 0x0290, 0x0041, 0x0013, 0x0538,
    0x0598, 0x0008, 0x0290, 0x0001, 0x0013, 0x0544,
    0x05a0, 0x0008, 0x0290, 0x0041, 0x0013, 0x0550,
    0x05a8, 0x0008, 0x0290, 0x0001, 0x0013, 0x055c,
    0x05b0, 0x0008, 0x0290, 0x0041, 0x0013, 0x0568,
    0x05b8, 0x0003, 0x0290, 0x0001, 0x0013, 0x0574,
    0x0000, 0x0000, 0x0210, 0x0041, 0x0013, 0x0000]

/-! ### Waiting for the controller -/

/-- `while (!(IO_read(HPI_STATUS) & HPI_STATUS_SIE1msg_FLAG))`. -/
def whileNoMessage (c : Code) : Code :=
  .whileAfter (ioRead hpiStatus) (fun x => x.ioVal &&& hpiStatusSie1msgFlag == 0) c

/-- `UsbWaitTDListDone`. -/
def usbWaitTDListDone : Code :=
  .block
    [usbReadTo hpiSie1MsgAdr setRetVal,
      usbWrite hpiSie1MsgAdr 0,
      -- every message is cleared, also one that is not the completion
      .loop (fun x => x.retVal != husbTDListDone)
        (.block [usbReadTo hpiSie1MsgAdr setRetVal, usbWrite hpiSie1MsgAdr 0])]

/-- `UsbGetRetryCnt`. -/
def usbGetRetryCnt : Code :=
  .block
    [ioRead hpiStatus,
      usbRead hpiSie1MsgAdr,
      -- a message that has come meanwhile is cleared, and the next one waited for
      .ite (fun x => x.ioVal == husbTDListDone)
        (.block [usbWrite hpiSie1MsgAdr 0, whileNoMessage .skip])
        .skip,
      ioWrite hpiAddr 0x0508,
      ioReadTo hpiData setRetVal]

/-! ### `main`, up to the enumeration -/

/-- The fourteen `UsbWrite`s to `COMM_R0`, …, `COMM_R13`. -/
def writeCommRegs (resetTime : BitVec 16) : Code :=
  .block
    [usbWrite commR0 resetTime, usbWrite commR1 0, usbWrite commR2 0, usbWrite commR3 0,
      usbWrite commR4 0, usbWrite commR5 0, usbWrite commR6 0, usbWrite commR7 0,
      usbWrite commR8 0, usbWrite commR9 0, usbWrite commR10 0, usbWrite commR11 0,
      usbWrite commR12 0, usbWrite commR13 0]

/-- Step 1a. -/
def step1a : Code :=
  .block
    [usbWrite hpiSie1MsgAdr 0,
      usbWrite host1StatReg 0xffff,
      usbWrite husbPEOT 600,
      .set fun x => { x with usbCtlVal := sofeop1ToCpuEn ||| resume1ToHpiEn },
      usbWriteOf hpiIrqRoutingReg Vars.usbCtlVal,
      .set fun x => { x with intStat := aChgIrqEn ||| sofEopIrqEn },
      usbWriteOf host1IrqEnReg Vars.intStat]

/-- `while (IO_read(HPI_MAILBOX) != COMM_ACK)` with its `goto USB_HOT_PLUG`. -/
def expectAck : Code :=
  .whileAfter (ioRead hpiMailbox) (fun x => x.ioVal != commAck)
    -- the second read is only printed; the `goto` starts the program again
    (.block [ioRead hpiMailbox, .jump])

/-- Step 1b. -/
def step1b : Code :=
  .block
    [writeCommRegs 0x0000,
      usbWrite commIntNum husbSie1InitInt,
      ioWrite hpiMailbox commExecInt,
      .whileAfter (ioRead hpiStatus) (fun x => x.ioVal &&& 0xffff == 0) .skip,
      expectAck]

/-- Step 2. -/
def step2 : Code :=
  .block
    [usbWrite commIntNum husbResetInt,
      writeCommRegs 0x003c,
      ioWrite hpiMailbox commExecInt,
      expectAck]

/-- Whether the lines of port A show no device. -/
def noDeviceSeen (x : Vars) : Bool := x.usbCtlVal &&& x.noDevice == 0

/-- `usb_ctl_val = UsbRead(ctl_reg)`. -/
def readPort : Code := usbReadOf Vars.ctlReg setUsbCtlVal

/-- `for(hot_plug_count = 0; hot_plug_count < n; hot_plug_count++)`, reading the port until a
    device is seen. -/
def lookAgain (n : BitVec 8) : Code :=
  .block
    [.set fun x => { x with hotPlugCount := 0 },
      .loop (fun x => x.hotPlugCount < n)
        (.block
          [readPort,
            .ite (fun x => !noDeviceSeen x) .brk .skip,
            .set fun x => { x with hotPlugCount := x.hotPlugCount + 1 }])]

/-- From the end of step 2 to step 3: a device is waited for, and one that has come late starts the
    program again. -/
def detect : Code :=
  .block
    [.set fun x =>
        { x with ctlReg := usb1CtlReg, noDevice := aDpStat ||| aDmStat, fsDevice := aDpStat },
      readPort,
      -- the other branch only prints the speed
      .ite noDeviceSeen
        (.block
          [lookAgain 5,
            .ite noDeviceSeen
              (.loop noDeviceSeen
                (.block [readPort, .ite (fun x => !noDeviceSeen x) .jump .skip]))
              .skip])
        .skip]

/-! ### `main`, the enumeration -/

/-- A request, sent again until the controller has a message, the end of its list, and the status
    and the control word that the controller has left in the first descriptor. -/
def requestStep (submit : Code) : Code :=
  .block
    [submit,
      -- the request is written and handed over again at every status without the flag
      whileNoMessage submit,
      usbWaitTDListDone,
      ioWrite hpiAddr 0x0506,
      ioRead hpiData,
      ioWrite hpiAddr 0x0508,
      ioReadTo hpiData setUsbCtlVal]

/-- `usb_ctl_val = UsbGetRetryCnt()`. -/
def getRetryCnt : Code :=
  .block [usbGetRetryCnt, .set fun x => { x with usbCtlVal := x.retVal }]

/-- Step 3: a request that has needed retries starts the program again. -/
def firstStep (submit : Code) : Code :=
  .block
    [requestStep submit,
      .loop (fun x => x.usbCtlVal != 0x03) (.block [getRetryCnt, .jump])]

/-- A later step: the control word is read again until it is 3. -/
def enumStep (submit : Code) : Code :=
  .block
    [requestStep submit,
      .loop (fun x => x.usbCtlVal != 0x03) getRetryCnt]

/-- Between step 6 and step 7: the interface protocol, and the packet size of the endpoint. -/
def readDeviceInfo : Code :=
  .block
    [ioWrite hpiAddr 0x056c,
      ioReadTo hpiData fun x v => { x with code := v },
      -- both branches on `code` only print
      .set fun x => { x with code := x.code &&& 0x003 },
      ioWrite hpiAddr 0x0576,
      ioWrite hpiData 0x073f,
      ioWrite hpiData 0x8105,
      ioWrite hpiData 0x0003,
      ioWrite hpiData 0x0008,
      ioWrite hpiData 0xac0a,
      usbWrite husbSie1pCurrentTDPtr 0x0576,
      ioWrite hpiAddr 0x057c,
      ioReadTo hpiData fun x v => { x with dataSize := (v &&& 0x0ff).setWidth 8 }]

/-- Steps 3 to 9. -/
def enumerate : Code :=
  .block
    [firstStep usbSetAddress,
      enumStep usbGetDeviceDesc1,
      enumStep usbGetDeviceDesc2,
      enumStep usbGetConfigDesc1,
      enumStep usbGetConfigDesc2,
      readDeviceInfo,
      enumStep usbSetConfig,
      enumStep usbClassRequest,
      enumStep usbGetHidDesc,
      enumStep usbGetReportDesc]

/-! ### `main`, the polling loop -/

/-- The descriptor of a poll, written and handed over. -/
def submitPoll : Code :=
  .block
    [ioWrite hpiAddr 0x0500,
      ioWrite hpiData 0x051c,
      ioWriteOf hpiData fun x => 0x000f &&& x.dataSize.setWidth 16,
      ioWrite hpiData 0x0291,
      .ite (fun x => x.toggle % 2 != 0) (ioWrite hpiData 0x0001) (ioWrite hpiData 0x0041),
      ioWrite hpiData 0x0013,
      ioWrite hpiData 0x0000,
      usbWrite husbSie1pCurrentTDPtr 0x0500]

/-- The report: its second word, of which the low byte goes to the FPGA. -/
def readKeycode : Code :=
  .block
    [ioWrite hpiAddr 0x051e,
      ioReadTo hpiData fun x v => { x with keycode := v.setWidth 32 },
      .send fun x => .keycode (x.keycode &&& 0xff)]

/-- The end of a pass: a keyboard that stays away is waited for, and then the program starts
    again. -/
def watchPort : Code :=
  .block
    [readPort,
      -- a device seen among the seven reads ends them, and the loop is left at once
      .ite noDeviceSeen (lookAgain 7) .skip,
      .loop noDeviceSeen
        (.block [readPort, readPort, readPort, .ite (fun x => !noDeviceSeen x) .jump .skip])]

/-- `while(1)`. -/
def pollForever : Code :=
  .loop (fun _ => true)
    (.block
      [.set fun x => { x with toggle := x.toggle + 1 },
        submitPoll,
        whileNoMessage submitPoll,
        usbWaitTDListDone,
        .set fun x => { x with usbCtlVal := x.retVal },
        readKeycode,
        watchPort])

/-- `main`. -/
def main : Code :=
  .block
    [ioInit,
      .set fun x => { x with ctlReg := 0, noDevice := 0, fsDevice := 0, keycode := 0, toggle := 0 },
      -- `USB_HOT_PLUG`
      .label (.block [usbSoftReset, step1a, step1b, step2, detect, enumerate, pollForever])]

/-- What has happened when `main` has run for a while, from any values of the variables that it
    does not set. -/
def mainHistory (env : Env Out (BitVec 8) (BitVec 16)) (fuel : ℕ) (x : Vars) : List IoEvent :=
  (main.exec env fuel ⟨x, []⟩).2.history

end NsShaft.Firmware
