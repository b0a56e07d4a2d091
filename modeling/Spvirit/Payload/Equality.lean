import Spvirit.Codec.EncodeValue
import Spvirit.Payload.Types

/-! Equality of payloads field by field. Floats compare as numbers. -/

namespace Spvirit

def listEq {α : Type} (eq : α → α → Bool) : List α → List α → Bool
  | [], [] => true
  | x :: xs, y :: ys => eq x y && listEq eq xs ys
  | _, _ => false

def optionEq {α : Type} (eq : α → α → Bool) : Option α → Option α → Bool
  | none, none => true
  | some x, some y => eq x y
  | _, _ => false

def ScalarValue.eq : ScalarValue → ScalarValue → Bool
  | .f32 x, .f32 y => x.eq y
  | .f64 x, .f64 y => x.eq y
  | x, y => x = y

def ScalarArrayValue.eq : ScalarArrayValue → ScalarArrayValue → Bool
  | .f32 x, .f32 y => listEq F32.eq x y
  | .f64 x, .f64 y => listEq F64.eq x y
  | x, y => x = y

def NtDisplay.eq (x y : NtDisplay) : Bool :=
  x.limitLow.eq y.limitLow && x.limitHigh.eq y.limitHigh && x.description = y.description && x.units = y.units
    && x.precision = y.precision

def NtControl.eq (x y : NtControl) : Bool :=
  x.limitLow.eq y.limitLow && x.limitHigh.eq y.limitHigh && x.minStep.eq y.minStep

def NtScalar.eq (x y : NtScalar) : Bool :=
  x.value.eq y.value && x.alarmSeverity = y.alarmSeverity && x.alarmStatus = y.alarmStatus
    && x.alarmMessage = y.alarmMessage && optionEq F64.eq x.alarmLow y.alarmLow
    && optionEq F64.eq x.alarmHigh y.alarmHigh && optionEq F64.eq x.alarmLolo y.alarmLolo
    && optionEq F64.eq x.alarmHihi y.alarmHihi && x.displayLow.eq y.displayLow && x.displayHigh.eq y.displayHigh
    && x.displayDescription = y.displayDescription && x.displayPrecision = y.displayPrecision
    && x.displayFormIndex = y.displayFormIndex && x.displayFormChoices = y.displayFormChoices
    && x.controlLow.eq y.controlLow && x.controlHigh.eq y.controlHigh && x.controlMinStep.eq y.controlMinStep
    && x.units = y.units && x.valueAlarmActive = y.valueAlarmActive
    && x.valueAlarmLowAlarmLimit.eq y.valueAlarmLowAlarmLimit
    && x.valueAlarmLowWarningLimit.eq y.valueAlarmLowWarningLimit
    && x.valueAlarmHighWarningLimit.eq y.valueAlarmHighWarningLimit
    && x.valueAlarmHighAlarmLimit.eq y.valueAlarmHighAlarmLimit
    && x.valueAlarmLowAlarmSeverity = y.valueAlarmLowAlarmSeverity
    && x.valueAlarmLowWarningSeverity = y.valueAlarmLowWarningSeverity
    && x.valueAlarmHighWarningSeverity = y.valueAlarmHighWarningSeverity
    && x.valueAlarmHighAlarmSeverity = y.valueAlarmHighAlarmSeverity
    && x.valueAlarmHysteresis = y.valueAlarmHysteresis && x.timeStamp = y.timeStamp

def NtScalarArray.eq (x y : NtScalarArray) : Bool :=
  x.value.eq y.value && x.alarm = y.alarm && x.timeStamp = y.timeStamp && x.display.eq y.display
    && x.control.eq y.control

def NtTable.eq (x y : NtTable) : Bool :=
  x.labels = y.labels && listEq (fun c d => c.name = d.name && c.values.eq d.values) x.columns y.columns
    && x.descriptor = y.descriptor && x.alarm = y.alarm && x.timeStamp = y.timeStamp

def NtAttribute.eq (x y : NtAttribute) : Bool :=
  x.name = y.name && x.value.eq y.value && x.descriptor = y.descriptor && x.sourceType = y.sourceType
    && x.source = y.source

def NtNdArray.eq (x y : NtNdArray) : Bool :=
  x.value.eq y.value && x.codec.name = y.codec.name && x.codec.parameters.eq y.codec.parameters
    && x.compressedSize = y.compressedSize && x.uncompressedSize = y.uncompressedSize && x.dimension = y.dimension
    && x.uniqueId = y.uniqueId && x.dataTimeStamp = y.dataTimeStamp && listEq NtAttribute.eq x.attributes y.attributes
    && x.descriptor = y.descriptor && x.alarm = y.alarm && x.timeStamp = y.timeStamp
    && optionEq NtDisplay.eq x.display y.display

mutual

def PvValue.eq : PvValue → PvValue → Bool
  | .scalar x, .scalar y => x.eq y
  | .scalarArray x, .scalarArray y => x.eq y
  | .structure i xs, .structure j ys => i = j && pvFieldsEq xs ys
  | _, _ => false

def pvFieldsEq : List (String × PvValue) → List (String × PvValue) → Bool
  | [], [] => true
  | x :: xs, y :: ys => x.1 = y.1 && x.2.eq y.2 && pvFieldsEq xs ys
  | _, _ => false

end

def NtPayload.eq : NtPayload → NtPayload → Bool
  | .scalar x, .scalar y => x.eq y
  | .scalarArray x, .scalarArray y => x.eq y
  | .table x, .table y => x.eq y
  | .ndArray x, .ndArray y => x.eq y
  | .enum x, .enum y => x = y
  | .generic i xs, .generic j ys => i = j && pvFieldsEq xs ys
  | _, _ => false

end Spvirit
