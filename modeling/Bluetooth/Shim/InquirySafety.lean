import Bluetooth.Shim.Inquiry
import Mathlib.Data.List.Basic

/-!
# The inquiry shim: its buffer and its assertions

`ExtendedResult` lays the structures of an extended inquiry response out in a 240-byte
buffer as length-type-value records. Whenever it returns, a reader of that layout gets the
structures back, and it returns exactly when every structure holds data (it copies from
`&data_[0]`) and the records fit the buffer.

The shim keeps one set of callbacks for both kinds of inquiry, and each kind's stop
unregisters them. A client that never stops one kind while the other is active, and passes
all four callbacks to each start, never trips an `ASSERT`: every inquiry event that arrives
while an inquiry is flagged active finds its callback set. Stopping the other kind breaks
this: the kind left active has lost its callbacks, and its completion fails the `ASSERT`.
-/

namespace Bluetooth.Shim

/-! ## Reading the buffer back -/

/-- How a reader takes extended inquiry response data in the layout the loop writes:
records of a length byte `L` followed by `L` bytes, the type and `L - 1` bytes of data, until
the data end or a zero length does. `fuel` bounds the number of records. -/
def parseGapData : Nat → List UInt8 → Option (List GapData)
  | _, [] => some []
  | 0, _ :: _ => none
  | fuel + 1, length :: rest =>
    if length = 0 then some []
    else
      match rest with
      | [] => none
      | dataType :: rest =>
        if length.toNat - 1 ≤ rest.length then
          (⟨dataType, rest.take (length.toNat - 1)⟩ :: ·) <$>
            parseGapData fuel (rest.drop (length.toNat - 1))
        else none

theorem length_gapDataBytes (g : GapData) : (gapDataBytes g).length = g.data.length + 2 := by
  simp [gapDataBytes]

@[simp] theorem encodeGapData_nil : encodeGapData [] = [] := rfl

@[simp] theorem encodeGapData_cons (g : GapData) (gs : List GapData) :
    encodeGapData (g :: gs) = gapDataBytes g ++ encodeGapData gs := rfl

theorem length_encodeGapData_cons (g : GapData) (gs : List GapData) :
    (encodeGapData (g :: gs)).length = g.data.length + 2 + (encodeGapData gs).length := by
  rw [encodeGapData_cons, List.length_append, length_gapDataBytes]

theorem two_mul_length_le (gs : List GapData) : 2 * gs.length ≤ (encodeGapData gs).length := by
  induction gs with
  | nil => simp
  | cons g gs ih => rw [length_encodeGapData_cons, List.length_cons]; omega

theorem length_data_add_two_le {g : GapData} {gs : List GapData} (hg : g ∈ gs) :
    g.data.length + 2 ≤ (encodeGapData gs).length := by
  induction gs with
  | nil => cases hg
  | cons g' gs ih =>
    rw [length_encodeGapData_cons]
    rcases List.mem_cons.mp hg with rfl | hg
    exacts [by omega, by have := ih hg; omega]

theorem parseGapData_gapDataBytes {g : GapData} (hg : g.data.length + 1 < UInt8.size)
    (fuel : Nat) (rest : List UInt8) :
    parseGapData (fuel + 1) (gapDataBytes g ++ rest) = (g :: ·) <$> parseGapData fuel rest := by
  have hlen : (UInt8.ofNat (g.data.length + 1)).toNat = g.data.length + 1 := Nat.mod_eq_of_lt hg
  have hne : UInt8.ofNat (g.data.length + 1) ≠ 0 := fun h => by
    rw [h] at hlen
    cases hlen
  rw [gapDataBytes, List.cons_append, List.cons_append]
  simp only [parseGapData, hne, if_false, hlen, Nat.add_sub_cancel, List.length_append,
    Nat.le_add_right, if_true, List.take_left, List.drop_left]

theorem parseGapData_encodeGapData :
    ∀ (gs : List GapData) (fuel : Nat), (∀ g ∈ gs, g.data.length + 1 < UInt8.size) →
      gs.length ≤ fuel → parseGapData fuel (encodeGapData gs) = some gs
  | [], fuel, _, _ => by cases fuel <;> rfl
  | g :: gs, fuel + 1, hg, hfuel => by
    rw [encodeGapData_cons, parseGapData_gapDataBytes (hg g (List.mem_cons_self g gs)),
      parseGapData_encodeGapData gs fuel (fun g' hg' => hg g' (List.mem_cons_of_mem g hg'))
        (by simpa using hfuel)]
    rfl

/-- All four callbacks are set, as `RegisterInquiryCallbacks` asserts. -/
def LegacyInquiryCallbacks.AllSet (callbacks : LegacyInquiryCallbacks) : Prop :=
  callbacks.resultCallback = true ∧ callbacks.resultWithRssiCallback = true ∧
    callbacks.extendedResultCallback = true ∧ callbacks.completeCallback = true

instance (callbacks : LegacyInquiryCallbacks) : Decidable callbacks.AllSet :=
  inferInstanceAs (Decidable (_ ∧ _))

namespace Inquiry

variable {s : Inquiry}

theorem parseGapData_of_fits {gs : List GapData}
    (hle : (encodeGapData gs).length ≤ kMaxExtendedInquiryResponse) :
    parseGapData (encodeGapData gs).length (encodeGapData gs) = some gs := by
  refine parseGapData_encodeGapData gs _ (fun g hg => ?_) (by have := two_mul_length_le gs; omega)
  have := length_data_add_two_le hg
  simp only [kMaxExtendedInquiryResponse, UInt8.size] at hle ⊢
  omega

theorem extendedResult_of_fits (hcb : s.callbacks.extendedResultCallback = true)
    {view : ExtendedInquiryResult} (hall : ∀ g ∈ view.extendedInquiryResponse, g.data ≠ [])
    (hle : (encodeGapData view.extendedInquiryResponse).length ≤ kMaxExtendedInquiryResponse) :
    s.extendedResult view = .ok [.extendedResult view.address view.pageScanRepetitionMode
      view.classOfDevice view.clockOffset view.rssi
      (if view.extendedInquiryResponse = [] then none
        else some (encodeGapData view.extendedInquiryResponse))
      (encodeGapData view.extendedInquiryResponse).length] := by
  unfold extendedResult
  by_cases hnil : view.extendedInquiryResponse = []
  · simp [hcb, hnil]
  · have hany : view.extendedInquiryResponse.any (·.data.isEmpty) = false := by
      simpa using hall
    simp [hcb, hnil, hany, Nat.not_lt.mpr hle]

theorem extendedResult_ne_ok (hcb : s.callbacks.extendedResultCallback = true)
    {view : ExtendedInquiryResult}
    (h : ¬ ((∀ g ∈ view.extendedInquiryResponse, g.data ≠ []) ∧
      (encodeGapData view.extendedInquiryResponse).length ≤ kMaxExtendedInquiryResponse))
    (reports : List Report) : s.extendedResult view ≠ .ok reports := by
  have hnil : view.extendedInquiryResponse ≠ [] := fun hnil => h ⟨by simp [hnil], by simp [hnil]⟩
  unfold extendedResult
  simp only [hcb, Bool.not_true, Bool.false_eq_true, if_false, List.isEmpty_iff, hnil]
  split_ifs with hany hover
  · exact nofun
  · exact nofun
  · exact absurd ⟨by simpa using hany, Nat.le_of_not_lt hover⟩ h

/-- Once its callback is set, `ExtendedResult` returns exactly when every structure of the
response holds data and their records fit `gap_data_buffer`; it then hands the callback
one call, with the view's fields and the bytes the loop wrote and their number, or the null
pointer and 0 for an empty response, and a reader of the layout gets every structure back
from those bytes, in order. -/
theorem extendedResult_reads_back (hcb : s.callbacks.extendedResultCallback = true)
    (view : ExtendedInquiryResult) :
    ((∃ reports, s.extendedResult view = .ok reports) ↔
      (∀ g ∈ view.extendedInquiryResponse, g.data ≠ []) ∧
        (encodeGapData view.extendedInquiryResponse).length ≤ kMaxExtendedInquiryResponse) ∧
    ∀ reports, s.extendedResult view = .ok reports →
      reports = [.extendedResult view.address view.pageScanRepetitionMode view.classOfDevice
          view.clockOffset view.rssi
          (if view.extendedInquiryResponse = [] then none
            else some (encodeGapData view.extendedInquiryResponse))
          (encodeGapData view.extendedInquiryResponse).length] ∧
        parseGapData (encodeGapData view.extendedInquiryResponse).length
          (encodeGapData view.extendedInquiryResponse) = some view.extendedInquiryResponse := by
  by_cases hfit : (∀ g ∈ view.extendedInquiryResponse, g.data ≠ []) ∧
      (encodeGapData view.extendedInquiryResponse).length ≤ kMaxExtendedInquiryResponse
  · rw [extendedResult_of_fits hcb hfit.1 hfit.2]
    refine ⟨⟨fun _ => hfit, fun _ => ⟨_, rfl⟩⟩, ?_⟩
    rintro _ ⟨⟩
    exact ⟨rfl, parseGapData_of_fits hfit.2⟩
  · exact ⟨⟨fun ⟨r, hr⟩ => absurd hr (extendedResult_ne_ok hcb hfit r), fun h => absurd h hfit⟩,
      fun r hr => absurd hr (extendedResult_ne_ok hcb hfit r)⟩

/-- All four legacy callbacks set. -/
def allCallbacks : LegacyInquiryCallbacks := ⟨true, true, true, true⟩

/-- A fresh shim holding all four callbacks. -/
def listening : Inquiry := { new with callbacks := allCallbacks }

/-- An extended inquiry result carrying a complete local name and the flags. -/
def namedDevice : ExtendedInquiryResult :=
  ⟨"AA:BB:CC:DD:EE:FF", 1, "0x5a020c", 0x1234, -60,
    [⟨0x09, [80, 105, 120, 101, 108]⟩, ⟨0x01, [0x06]⟩]⟩

theorem extendedResult_reads_back_namedDevice :
    listening.callbacks.extendedResultCallback = true ∧
    ((∃ reports, listening.extendedResult namedDevice = .ok reports) ↔
      (∀ g ∈ namedDevice.extendedInquiryResponse, g.data ≠ []) ∧
        (encodeGapData namedDevice.extendedInquiryResponse).length ≤
          kMaxExtendedInquiryResponse) ∧
    ∀ reports, listening.extendedResult namedDevice = .ok reports →
      reports = [.extendedResult namedDevice.address namedDevice.pageScanRepetitionMode
          namedDevice.classOfDevice namedDevice.clockOffset namedDevice.rssi
          (if namedDevice.extendedInquiryResponse = [] then none
            else some (encodeGapData namedDevice.extendedInquiryResponse))
          (encodeGapData namedDevice.extendedInquiryResponse).length] ∧
        parseGapData (encodeGapData namedDevice.extendedInquiryResponse).length
          (encodeGapData namedDevice.extendedInquiryResponse) =
          some namedDevice.extendedInquiryResponse :=
  ⟨rfl, extendedResult_reads_back rfl namedDevice⟩

/-! ## Assertions along runs -/

def inquiryActive (s : Inquiry) : Bool := s.generalInquiryActive || s.limitedInquiryActive

def periodicInquiryActive (s : Inquiry) : Bool :=
  s.generalPeriodicInquiryActive || s.limitedPeriodicInquiryActive

def anyActive (s : Inquiry) : Bool := s.inquiryActive || s.periodicInquiryActive

/-- The client's side of the protocol and the module's: each start passes all four
callbacks; a stop of one kind of inquiry comes only while none of the other kind is active
(or, for `StopInquiry`, when it is ignored); the module reports events only while an inquiry
is flagged active, and extended responses whose structures hold data and fit the buffer. -/
def Allowed (s : Inquiry) : Call → Prop
  | .startGeneralInquiry _ _ callbacks => callbacks.AllSet
  | .startLimitedInquiry _ _ callbacks => callbacks.AllSet
  | .startGeneralPeriodicInquiry _ _ _ _ callbacks => callbacks.AllSet
  | .startLimitedPeriodicInquiry _ _ _ _ callbacks => callbacks.AllSet
  | .stopInquiry => s.inquiryActive = false ∨ s.periodicInquiryActive = false
  | .stopPeriodicInquiry => s.inquiryActive = false
  | .result _ => s.anyActive = true
  | .resultWithRssi _ => s.anyActive = true
  | .extendedResult view => s.anyActive = true ∧
      (∀ g ∈ view.extendedInquiryResponse, g.data ≠ []) ∧
      (encodeGapData view.extendedInquiryResponse).length ≤ kMaxExtendedInquiryResponse
  | .complete _ => s.anyActive = true
  | _ => True

instance (s : Inquiry) : (c : Call) → Decidable (s.Allowed c)
  | .startGeneralInquiry _ _ callbacks => inferInstanceAs (Decidable callbacks.AllSet)
  | .startLimitedInquiry _ _ callbacks => inferInstanceAs (Decidable callbacks.AllSet)
  | .startGeneralPeriodicInquiry _ _ _ _ callbacks => inferInstanceAs (Decidable callbacks.AllSet)
  | .startLimitedPeriodicInquiry _ _ _ _ callbacks => inferInstanceAs (Decidable callbacks.AllSet)
  | .stopInquiry => inferInstanceAs (Decidable (_ ∨ _))
  | .stopPeriodicInquiry => inferInstanceAs (Decidable (_ = _))
  | .setInterlacedScan => isTrue trivial
  | .setStandardScan => isTrue trivial
  | .setScanActivity _ _ => isTrue trivial
  | .setStandardInquiryResultMode => isTrue trivial
  | .setInquiryWithRssiResultMode => isTrue trivial
  | .setExtendedInquiryResultMode => isTrue trivial
  | .result _ => inferInstanceAs (Decidable (_ = _))
  | .resultWithRssi _ => inferInstanceAs (Decidable (_ = _))
  | .extendedResult _ => inferInstanceAs (Decidable (_ ∧ _))
  | .complete _ => inferInstanceAs (Decidable (_ = _))

/-- A run of allowed calls and events; `none` at the first that is not allowed or fails. -/
def run (s : Inquiry) : List Call → Option Inquiry
  | [] => some s
  | c :: cs =>
    if s.Allowed c then
      match s.step c with
      | .ok (s', _) => run s' cs
      | .error _ => none
    else none

/-- While some inquiry is flagged active, all four callbacks are set. -/
def Armed (s : Inquiry) : Prop := s.anyActive = true → s.callbacks.AllSet

theorem armed_new : Armed new := nofun

theorem registerInquiryCallbacks_of_allSet {callbacks : LegacyInquiryCallbacks}
    (h : callbacks.AllSet) :
    s.registerInquiryCallbacks callbacks = .ok { s with callbacks := callbacks } := by
  obtain ⟨h₁, h₂, h₃, h₄⟩ := h
  simp [registerInquiryCallbacks, h₁, h₂, h₃, h₄]

theorem start_of_allSet {callbacks : LegacyInquiryCallbacks} (h : callbacks.AllSet)
    (raise : Inquiry → Inquiry) (call : ModuleCall) :
    s.start callbacks raise call = .ok (raise { s with callbacks := callbacks }, call) := by
  rw [start, registerInquiryCallbacks_of_allSet h]
  rfl

theorem step_armed (hs : Armed s) {c : Call} (ha : s.Allowed c) {s' : Inquiry}
    {out : List Output} (h : s.step c = .ok (s', out)) : Armed s' := by
  cases c with
  | startGeneralInquiry _ _ cb | startLimitedInquiry _ _ cb
  | startGeneralPeriodicInquiry _ _ _ _ cb | startLimitedPeriodicInquiry _ _ _ _ cb =>
    simp only [step, startGeneralInquiry, startLimitedInquiry, startGeneralPeriodicInquiry,
      startLimitedPeriodicInquiry, start_of_allSet ha] at h
    cases h
    exact fun _ => ha
  | stopInquiry =>
    simp only [step, stopInquiry] at h
    split_ifs at h with hi <;> cases h
    · exact hs
    · -- the periodic flags are down, and the stop lowers the others
      simp only [Allowed, inquiryActive, periodicInquiryActive, Bool.or_eq_false_iff] at ha hi
      rcases ha with ⟨h₁, h₂⟩ | ⟨h₁, h₂⟩
      · simp [h₁, h₂] at hi
      · simp [Armed, anyActive, inquiryActive, periodicInquiryActive, unregisterInquiryCallbacks,
          h₁, h₂]
  | stopPeriodicInquiry =>
    cases h
    simp only [Allowed, inquiryActive, Bool.or_eq_false_iff] at ha
    simp [Armed, anyActive, inquiryActive, periodicInquiryActive, stopPeriodicInquiry,
      unregisterInquiryCallbacks, ha.1, ha.2]
  | setScanActivity => cases h; exact hs
  | complete status =>
    obtain ⟨_, hc, h⟩ := bind_eq_ok.mp h
    simp only [complete] at hc
    split_ifs at hc
    cases hc
    cases h
    intro hact
    exact hs (by simp_all [anyActive, inquiryActive, periodicInquiryActive])
  | result | resultWithRssi | extendedResult =>
    simp only [step] at h
    obtain ⟨_, -, h⟩ := bind_eq_ok.mp h
    cases h
    exact hs
  | _ => cases h; exact hs

theorem step_ok (hs : Armed s) {c : Call} (ha : s.Allowed c) : ∃ r, s.step c = .ok r := by
  cases c with
  | startGeneralInquiry _ _ cb | startLimitedInquiry _ _ cb
  | startGeneralPeriodicInquiry _ _ _ _ cb | startLimitedPeriodicInquiry _ _ _ _ cb =>
    simp only [step, startGeneralInquiry, startLimitedInquiry, startGeneralPeriodicInquiry,
      startLimitedPeriodicInquiry, start_of_allSet ha]
    exact ⟨_, rfl⟩
  | result rs => exact ⟨_, by simp [step, result, (hs ha).1]; rfl⟩
  | resultWithRssi rs => exact ⟨_, by simp [step, resultWithRssi, (hs ha).2.1]; rfl⟩
  | extendedResult view =>
    exact ⟨_, by rw [step, extendedResult_of_fits (hs ha.1).2.2.1 ha.2.1 ha.2.2]; rfl⟩
  | complete status => exact ⟨_, by simp [step, complete, (hs ha).2.2.2]; rfl⟩
  | _ => exact ⟨_, rfl⟩

theorem Armed.run {s s' : Inquiry} (hs : Armed s) :
    ∀ {cs : List Call}, s.run cs = some s' → Armed s'
  | [], h => by cases h; exact hs
  | c :: cs, h => by
    unfold Inquiry.run at h
    split at h
    · split at h
      · exact Armed.run (step_armed hs ‹_› ‹_›) h
      · cases h
    · cases h

/-- Along every run from a fresh shim in which each start passes all four callbacks, no kind
of inquiry is stopped while the other is active, and the module reports events only while
an inquiry is flagged active (extended responses whose structures hold data and fit the
buffer), every next allowed call or event returns: no `ASSERT` fires, in
`RegisterInquiryCallbacks` or in the handlers of the four events. -/
theorem run_never_asserts {cs : List Call} {s : Inquiry} (hrun : new.run cs = some s)
    {c : Call} (ha : s.Allowed c) : ∃ r, s.step c = .ok r :=
  step_ok (armed_new.run hrun) ha

/-- A periodic inquiry that reports and completes a cycle and is stopped, then a general
inquiry that reports a named device. -/
def periodicThenGeneral : List Call :=
  [.startGeneralPeriodicInquiry 8 0 20 10 allCallbacks, .result [], .complete 0,
    .stopPeriodicInquiry, .startGeneralInquiry 8 0 allCallbacks, .extendedResult namedDevice]

theorem run_never_asserts_periodicThenGeneral :
    ∃ s, new.run periodicThenGeneral = some s ∧ s.Allowed (.complete 0) ∧
      ∃ r, s.step (.complete 0) = .ok r :=
  have hrun : new.run periodicThenGeneral = some _ := rfl
  ⟨_, hrun, by decide, run_never_asserts hrun (by decide)⟩

end Inquiry

end Bluetooth.Shim
