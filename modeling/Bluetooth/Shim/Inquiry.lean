import Bluetooth.Fault

/-!
# The inquiry shim

`Inquiry` (shim/inquiry.cc) stands between the legacy stack and `neighbor::InquiryModule`:
it holds the legacy callbacks, four activity flags and the scan parameters, passes the
client's calls on to the module and the module's inquiry events back to the callbacks.
The neighbor module is not part of the sources, so the commands the shim sends it are
outputs and the events it reports are inputs. Of each legacy callback the model keeps
whether it is set, which is what the shim's `ASSERT`s read; `Address::ToString` and
`ClassOfDevice::ToString` are not in the sources either, so the views carry their results.
-/

namespace Bluetooth.Shim

/-- `kMaxExtendedInquiryResponse`: the size of the buffer `ExtendedResult` writes into. -/
def kMaxExtendedInquiryResponse : Nat := 240

/-- `LegacyInquiryCallbacks`: which of the four callbacks are set. -/
structure LegacyInquiryCallbacks where
  resultCallback : Bool
  resultWithRssiCallback : Bool
  extendedResultCallback : Bool
  completeCallback : Bool
  deriving DecidableEq, Repr

/-- `neighbor::ScanParameters`. -/
structure ScanParameters where
  interval : UInt16
  window : UInt16
  deriving DecidableEq, Repr

/-- A response of an `InquiryResult` event, with the fields `Result` passes on. -/
structure InquiryResponse where
  bdAddr : String
  pageScanRepetitionMode : UInt8
  classOfDevice : String
  clockOffset : UInt16
  deriving DecidableEq, Repr

/-- A response of an `InquiryResultWithRssi` event, with the fields `ResultWithRssi` passes
on. -/
structure InquiryResponseWithRssi where
  address : String
  pageScanRepetitionMode : UInt8
  classOfDevice : String
  clockOffset : UInt16
  rssi : Int8
  deriving DecidableEq

/-- `GapData`: one structure of an extended inquiry response. -/
structure GapData where
  dataType : UInt8
  data : List UInt8
  deriving DecidableEq, Repr

/-- `ExtendedInquiryResultView`, with the fields `ExtendedResult` reads. -/
structure ExtendedInquiryResult where
  address : String
  pageScanRepetitionMode : UInt8
  classOfDevice : String
  clockOffset : UInt16
  rssi : Int8
  extendedInquiryResponse : List GapData
  deriving DecidableEq

/-- The calls the shim makes on `neighbor::InquiryModule`. -/
inductive ModuleCall
  | startGeneralInquiry (inquiryLength numResponses : UInt8)
  | startLimitedInquiry (inquiryLength numResponses : UInt8)
  | stopInquiry
  | startGeneralPeriodicInquiry (inquiryLength numResponses : UInt8) (maxDelay minDelay : UInt16)
  | startLimitedPeriodicInquiry (inquiryLength numResponses : UInt8) (maxDelay minDelay : UInt16)
  | stopPeriodicInquiry
  | setInterlacedScan
  | setStandardScan
  | setScanActivity (params : ScanParameters)
  | setStandardInquiryResultMode
  | setInquiryWithRssiResultMode
  | setExtendedInquiryResultMode
  deriving DecidableEq, Repr

/-- The calls the shim makes on the legacy callbacks, with their arguments; an extended
result's data is `none` for the null pointer, and otherwise the bytes of the buffer the
callee may read. -/
inductive Report
  | result (bdAddr : String) (pageScanRepetitionMode : UInt8) (classOfDevice : String)
      (clockOffset : UInt16)
  | resultWithRssi (address : String) (pageScanRepetitionMode : UInt8) (classOfDevice : String)
      (clockOffset : UInt16) (rssi : Int8)
  | extendedResult (address : String) (pageScanRepetitionMode : UInt8) (classOfDevice : String)
      (clockOffset : UInt16) (rssi : Int8) (data : Option (List UInt8)) (dataLen : Nat)
  | complete (status : UInt16)
  deriving DecidableEq

/-- `Inquiry::impl`, without its `module_` pointer. -/
structure Inquiry where
  callbacks : LegacyInquiryCallbacks
  params : ScanParameters
  generalInquiryActive : Bool
  limitedInquiryActive : Bool
  generalPeriodicInquiryActive : Bool
  limitedPeriodicInquiryActive : Bool
  deriving DecidableEq, Repr

/-! ## The extended inquiry response buffer -/

/-- The bytes the loop of `ExtendedResult` writes for one structure: its length counting the
type byte, truncated to a byte; its type; its data. -/
def gapDataBytes (g : GapData) : List UInt8 :=
  UInt8.ofNat (g.data.length + 1) :: g.dataType :: g.data

/-- The bytes the loop of `ExtendedResult` writes into `gap_data_buffer`, from its start. -/
def encodeGapData : List GapData → List UInt8
  | [] => []
  | g :: gs => gapDataBytes g ++ encodeGapData gs

namespace Inquiry

def noCallbacks : LegacyInquiryCallbacks := ⟨false, false, false, false⟩

/-- `impl(module)`: no callbacks, zero scan parameters, no inquiry active. -/
def new : Inquiry := ⟨noCallbacks, ⟨0, 0⟩, false, false, false, false⟩

/-- `RegisterInquiryCallbacks`: stores the callbacks, then asserts that each is set. -/
def registerInquiryCallbacks (s : Inquiry) (callbacks : LegacyInquiryCallbacks) :
    Except Fault Inquiry :=
  if !callbacks.resultCallback then .error (.assertion "callbacks_.result_callback")
  else if !callbacks.resultWithRssiCallback then
    .error (.assertion "callbacks_.result_with_rssi_callback")
  else if !callbacks.extendedResultCallback then
    .error (.assertion "callbacks_.extended_result_callback")
  else if !callbacks.completeCallback then .error (.assertion "callbacks_.complete_callback")
  else .ok { s with callbacks := callbacks }

/-- `UnregisterInquiryCallbacks`. -/
def unregisterInquiryCallbacks (s : Inquiry) : Inquiry := { s with callbacks := noCallbacks }

/-- The four `Start…Inquiry` calls: register the callbacks, raise the call's flag with
`raise`, and pass `call` on to the module. -/
def start (s : Inquiry) (callbacks : LegacyInquiryCallbacks) (raise : Inquiry → Inquiry)
    (call : ModuleCall) : Except Fault (Inquiry × ModuleCall) := do
  let s ← s.registerInquiryCallbacks callbacks
  return (raise s, call)

/-- `StartGeneralInquiry`. -/
def startGeneralInquiry (s : Inquiry) (inquiryLength numResponses : UInt8)
    (callbacks : LegacyInquiryCallbacks) : Except Fault (Inquiry × ModuleCall) :=
  s.start callbacks (fun s => { s with generalInquiryActive := true })
    (.startGeneralInquiry inquiryLength numResponses)

/-- `StartLimitedInquiry`. -/
def startLimitedInquiry (s : Inquiry) (inquiryLength numResponses : UInt8)
    (callbacks : LegacyInquiryCallbacks) : Except Fault (Inquiry × ModuleCall) :=
  s.start callbacks (fun s => { s with limitedInquiryActive := true })
    (.startLimitedInquiry inquiryLength numResponses)

/-- `StartGeneralPeriodicInquiry`. -/
def startGeneralPeriodicInquiry (s : Inquiry) (inquiryLength numResponses : UInt8)
    (maxDelay minDelay : UInt16) (callbacks : LegacyInquiryCallbacks) :
    Except Fault (Inquiry × ModuleCall) :=
  s.start callbacks (fun s => { s with generalPeriodicInquiryActive := true })
    (.startGeneralPeriodicInquiry inquiryLength numResponses maxDelay minDelay)

/-- `StartLimitedPeriodicInquiry`. -/
def startLimitedPeriodicInquiry (s : Inquiry) (inquiryLength numResponses : UInt8)
    (maxDelay minDelay : UInt16) (callbacks : LegacyInquiryCallbacks) :
    Except Fault (Inquiry × ModuleCall) :=
  s.start callbacks (fun s => { s with limitedPeriodicInquiryActive := true })
    (.startLimitedPeriodicInquiry inquiryLength numResponses maxDelay minDelay)

/-- `StopInquiry`: ignored when neither a general nor a limited inquiry is active; otherwise
it lowers both flags, stops the module's inquiry and unregisters the callbacks. -/
def stopInquiry (s : Inquiry) : Inquiry × List ModuleCall :=
  if !s.limitedInquiryActive && !s.generalInquiryActive then (s, [])
  else
    (unregisterInquiryCallbacks
      { s with limitedInquiryActive := false, generalInquiryActive := false }, [.stopInquiry])

/-- `StopPeriodicInquiry`: lowers both periodic flags, stops the module's periodic inquiry and
unregisters the callbacks, whatever is active. -/
def stopPeriodicInquiry (s : Inquiry) : Inquiry × ModuleCall :=
  (unregisterInquiryCallbacks
    { s with limitedPeriodicInquiryActive := false, generalPeriodicInquiryActive := false },
    .stopPeriodicInquiry)

/-- `SetScanActivity`. -/
def setScanActivity (s : Inquiry) (interval window : UInt16) : Inquiry × ModuleCall :=
  ({ s with params := ⟨interval, window⟩ }, .setScanActivity ⟨interval, window⟩)

/-- `GetScanActivity`: the interval and the window. -/
def getScanActivity (s : Inquiry) : UInt16 × UInt16 := (s.params.interval, s.params.window)

/-- `Result`: asserts that the result callback is set, then reports each response in turn. -/
def result (s : Inquiry) (responses : List InquiryResponse) : Except Fault (List Report) :=
  if s.callbacks.resultCallback then
    .ok (responses.map fun r =>
      .result r.bdAddr r.pageScanRepetitionMode r.classOfDevice r.clockOffset)
  else .error (.assertion "callbacks_.result_callback != nullptr")

/-- `ResultWithRssi`: asserts that its callback is set, then reports each response in turn. -/
def resultWithRssi (s : Inquiry) (responses : List InquiryResponseWithRssi) :
    Except Fault (List Report) :=
  if s.callbacks.resultWithRssiCallback then
    .ok (responses.map fun r =>
      .resultWithRssi r.address r.pageScanRepetitionMode r.classOfDevice r.clockOffset r.rssi)
  else .error (.assertion "callbacks_.result_with_rssi_callback != nullptr")

/-- `ExtendedResult`: asserts that its callback is set; then, for a nonempty response, writes
each structure into `gap_data_buffer`, whose data it copies from `&gap_data.data_[0]`, and
reports the bytes written; for an empty one it reports the null pointer and length 0. -/
def extendedResult (s : Inquiry) (view : ExtendedInquiryResult) : Except Fault (List Report) :=
  let report := Report.extendedResult view.address view.pageScanRepetitionMode
    view.classOfDevice view.clockOffset view.rssi
  if !s.callbacks.extendedResultCallback then
    .error (.assertion "callbacks_.extended_result_callback != nullptr")
  else if view.extendedInquiryResponse.isEmpty then .ok [report none 0]
  else if view.extendedInquiryResponse.any (·.data.isEmpty) then
    .error (.undefined "gap_data.data_[0] of an empty vector")
  else
    let bytes := encodeGapData view.extendedInquiryResponse
    if kMaxExtendedInquiryResponse < bytes.length then
      .error (.undefined "write past the end of gap_data_buffer")
    else .ok [report (some bytes) bytes.length]

/-- `Complete`: asserts that the complete callback is set, lowers the general and limited
flags, and reports the status. -/
def complete (s : Inquiry) (status : UInt8) : Except Fault (Inquiry × Report) :=
  if s.callbacks.completeCallback then
    .ok ({ s with limitedInquiryActive := false, generalInquiryActive := false },
      .complete status.toUInt16)
  else .error (.assertion "callbacks_.complete_callback != nullptr")

/-! ## Runs -/

/-- A call of the client on the shim, or an inquiry event the module reports. -/
inductive Call
  | startGeneralInquiry (inquiryLength numResponses : UInt8) (callbacks : LegacyInquiryCallbacks)
  | startLimitedInquiry (inquiryLength numResponses : UInt8) (callbacks : LegacyInquiryCallbacks)
  | stopInquiry
  | startGeneralPeriodicInquiry (inquiryLength numResponses : UInt8) (maxDelay minDelay : UInt16)
      (callbacks : LegacyInquiryCallbacks)
  | startLimitedPeriodicInquiry (inquiryLength numResponses : UInt8) (maxDelay minDelay : UInt16)
      (callbacks : LegacyInquiryCallbacks)
  | stopPeriodicInquiry
  | setInterlacedScan
  | setStandardScan
  | setScanActivity (interval window : UInt16)
  | setStandardInquiryResultMode
  | setInquiryWithRssiResultMode
  | setExtendedInquiryResultMode
  | result (responses : List InquiryResponse)
  | resultWithRssi (responses : List InquiryResponseWithRssi)
  | extendedResult (view : ExtendedInquiryResult)
  | complete (status : UInt8)

/-- What the shim hands on: a call on the module or a call of a legacy callback. -/
inductive Output
  | call (c : ModuleCall)
  | report (r : Report)

/-- One call or event, as the shim's member function. -/
def step (s : Inquiry) : Call → Except Fault (Inquiry × List Output)
  | .startGeneralInquiry l n cb => (fun (s, c) => (s, [.call c])) <$> s.startGeneralInquiry l n cb
  | .startLimitedInquiry l n cb => (fun (s, c) => (s, [.call c])) <$> s.startLimitedInquiry l n cb
  | .stopInquiry => .ok ((s.stopInquiry).1, (s.stopInquiry).2.map .call)
  | .startGeneralPeriodicInquiry l n hi lo cb =>
    (fun (s, c) => (s, [.call c])) <$> s.startGeneralPeriodicInquiry l n hi lo cb
  | .startLimitedPeriodicInquiry l n hi lo cb =>
    (fun (s, c) => (s, [.call c])) <$> s.startLimitedPeriodicInquiry l n hi lo cb
  | .stopPeriodicInquiry => .ok ((s.stopPeriodicInquiry).1, [.call (s.stopPeriodicInquiry).2])
  | .setInterlacedScan => .ok (s, [.call .setInterlacedScan])
  | .setStandardScan => .ok (s, [.call .setStandardScan])
  | .setScanActivity i w => .ok ((s.setScanActivity i w).1, [.call (s.setScanActivity i w).2])
  | .setStandardInquiryResultMode => .ok (s, [.call .setStandardInquiryResultMode])
  | .setInquiryWithRssiResultMode => .ok (s, [.call .setInquiryWithRssiResultMode])
  | .setExtendedInquiryResultMode => .ok (s, [.call .setExtendedInquiryResultMode])
  | .result rs => (fun reports => (s, reports.map .report)) <$> s.result rs
  | .resultWithRssi rs => (fun reports => (s, reports.map .report)) <$> s.resultWithRssi rs
  | .extendedResult v => (fun reports => (s, reports.map .report)) <$> s.extendedResult v
  | .complete status => (fun (s, r) => (s, [.report r])) <$> s.complete status

end Inquiry

end Bluetooth.Shim
