import CaptureHPC.Proof.Calendar
import CaptureHPC.Proof.Delivery
import CaptureHPC.Proof.Upload
import CaptureHPC.Spec.Client
import CaptureHPC.Spec.SystemEvents

/-!
# From an event of a monitor to the line in the log

The client writes the time of an event without padding, and an id as an unsigned number. The server reads the message.
It writes the attributes to the log as they are, without the id; but in the visit of a group of several URLs under
`bulk` it keeps a state change, and writes that at the end.

* `parse_chars`: the server reads the time that the client writes.
* `format_millis`: it writes a time of the calendar with the same fields, in any time zone that has this time.
* `system_event_line`: so an event whose names are escaped well becomes a line that says what the monitor
  saw, in either case.
-/

namespace CaptureHPC

open Lib Cpp Cpp.FileUploader

/-! ## Reading a time -/

theorem takeNumber_toDigits (n : ℕ) {r : List Char} (hr : ∀ c ∈ r.head?, isDecimal c = false) :
    takeNumber (Nat.toDigits 10 n ++ r) = some (n, r) := by
  rw [takeNumber_digits (List.length_pos_iff.1 Nat.length_toDigits_pos) (fun c hc =>
    Nat.isDigit_of_mem_toDigits (by decide) (by decide) hc) hr, Nat.ofDigitChars_ten_toDigits]

theorem takeField_toDigits (n : ℕ) {sep : Char} (hsep : isDecimal sep = false) (r : List Char) :
    takeField sep (Nat.toDigits 10 n ++ sep :: r) = some (n, r) := by
  have hnumber := takeNumber_toDigits n (r := sep :: r) (by simpa using hsep)
  unfold takeField
  rw [hnumber]
  exact if_pos rfl

theorem decimal_eq (n : ℕ) : decimal n = units (Nat.toDigits 10 n) := by
  have h : (toString (n : ℤ)).toList = Nat.toDigits 10 n := by
    simp [toString, Int.repr, Nat.repr]
  rw [decimal, lit, h]

namespace Cpp.TimeFields

/-- The text of a time. -/
def chars (t : TimeFields) : List Char :=
  Nat.toDigits 10 t.wDay ++ '/' :: (Nat.toDigits 10 t.wMonth ++ '/' :: (Nat.toDigits 10 t.wYear ++ ' ' ::
    (Nat.toDigits 10 t.wHour ++ ':' :: (Nat.toDigits 10 t.wMinute ++ ':' :: (Nat.toDigits 10 t.wSecond ++ '.' ::
      Nat.toDigits 10 t.wMilliseconds)))))

theorem timefieldToString_eq (t : TimeFields) : timefieldToString t = units t.chars := by
  unfold timefieldToString chars
  simp only [decimal_eq, lit, ← units_append]
  simp

/-- A time of the calendar. -/
structure Valid (t : TimeFields) : Prop where
  year : 1601 ≤ t.wYear
  month : 1 ≤ t.wMonth ∧ t.wMonth ≤ 12
  day : 1 ≤ t.wDay ∧ t.wDay ≤ monthLength t.wYear t.wMonth
  hour : t.wHour < 24
  minute : t.wMinute < 60
  second : t.wSecond < 60
  milliseconds : t.wMilliseconds < 1000

instance (t : TimeFields) : Decidable t.Valid :=
  decidable_of_iff (1601 ≤ t.wYear ∧ (1 ≤ t.wMonth ∧ t.wMonth ≤ 12) ∧
      (1 ≤ t.wDay ∧ t.wDay ≤ monthLength t.wYear t.wMonth) ∧ t.wHour < 24 ∧ t.wMinute < 60 ∧
      t.wSecond < 60 ∧ t.wMilliseconds < 1000)
    ⟨fun h => ⟨h.1, h.2.1, h.2.2.1, h.2.2.2.1, h.2.2.2.2.1, h.2.2.2.2.2.1, h.2.2.2.2.2.2⟩, fun h =>
      ⟨h.year, h.month, h.day, h.hour, h.minute, h.second, h.milliseconds⟩⟩

/-- The milliseconds of a time. -/
def millis (t : TimeFields) : ℤ :=
  daysOfCivil t.wYear t.wMonth t.wDay * 86400000 + t.wHour * 3600000 + t.wMinute * 60000 + t.wSecond * 1000 +
    t.wMilliseconds

theorem daysOfCivil_day (y : ℤ) (m : ℕ) {d : ℕ} (hd : 1 ≤ d) : daysOfCivil y m 1 + d - 1 = daysOfCivil y m d := by
  rw [daysOfCivil_eq, daysOfCivil_eq]
  unfold dayOfYear
  omega

/-- **The time of the client is read.** -/
theorem parse_chars {t : TimeFields} (ht : t.Valid) : utcParse t.chars = some t.millis := by
  have hlast := takeNumber_toDigits t.wMilliseconds (r := []) (by simp)
  rw [List.append_nil] at hlast
  have hslash := fun n r => takeField_toDigits n (show isDecimal '/' = false by decide) r
  have hblank := fun n r => takeField_toDigits n (show isDecimal ' ' = false by decide) r
  have hcolon := fun n r => takeField_toDigits n (show isDecimal ':' = false by decide) r
  have hpoint := fun n r => takeField_toDigits n (show isDecimal '.' = false by decide) r
  -- the calendar carries nothing over
  obtain ⟨hm1, hm2⟩ := ht.month
  have hyear : (t.wYear : ℤ) + ((t.wMonth : ℤ) - 1) / 12 = t.wYear := by omega
  have hmonth : (t.wMonth - 1) % 12 + 1 = t.wMonth := by omega
  unfold utcParse chars
  simp only [hslash, hblank, hcolon, hpoint, hlast, Option.bind_eq_bind, Option.bind_some]
  rw [hyear, hmonth, daysOfCivil_day _ _ ht.day.1]
  rfl

/-! ## Writing a time -/

/-- A time as the server writes it. -/
def shown (t : TimeFields) : String :=
  String.ofList (padded 2 t.wDay ++ '/' :: padded 2 t.wMonth ++ '/' :: padded 4 t.wYear ++ ' ' :: padded 2 t.wHour ++
    ':' :: padded 2 t.wMinute ++ ':' :: padded 2 t.wSecond ++ '.' :: padded 1 t.wMilliseconds)

/-- **The server writes the fields of the time.** -/
theorem format_millis {t : TimeFields} (ht : t.Valid) : String.ofList (utcFormat t.millis) = t.shown := by
  have hdate := civilOfDays_daysOfCivil ht.month ht.day
  have hhour := ht.hour
  have hminute := ht.minute
  have hsecond := ht.second
  have hmilliseconds := ht.milliseconds
  have hdays : t.millis / 86400000 = daysOfCivil t.wYear t.wMonth t.wDay := by
    unfold millis
    omega
  have hms : (t.millis % 86400000).toNat =
      t.wHour * 3600000 + t.wMinute * 60000 + t.wSecond * 1000 + t.wMilliseconds := by
    unfold millis
    omega
  have hyear : (if 0 < (t.wYear : ℤ) then (t.wYear : ℤ) else 1 - t.wYear).toNat = t.wYear := by
    have := ht.year
    rw [if_pos (by omega), Int.toNat_natCast]
  unfold utcFormat shown
  rw [hdays, hdate]
  simp only [hms, hyear]
  have h1 : (t.wHour * 3600000 + t.wMinute * 60000 + t.wSecond * 1000 + t.wMilliseconds) / 3600000 = t.wHour := by omega
  have h2 : (t.wHour * 3600000 + t.wMinute * 60000 + t.wSecond * 1000 + t.wMilliseconds) / 60000 % 60 = t.wMinute := by
    omega
  have h3 : (t.wHour * 3600000 + t.wMinute * 60000 + t.wSecond * 1000 + t.wMilliseconds) / 1000 % 60 = t.wSecond := by
    omega
  have h4 : (t.wHour * 3600000 + t.wMinute * 60000 + t.wSecond * 1000 + t.wMilliseconds) % 1000 = t.wMilliseconds := by
    omega
  rw [h1, h2, h3, h4]

end Cpp.TimeFields

/-! ## What is escaped well -/

theorem mem_of_mem_unscanned {c : Char} : ∀ {cs : List Char} {k : ℕ}, c ∈ Server.unscanned k cs → c ∈ cs := by
  intro cs
  induction cs with
  | nil => exact fun h => h
  | cons x cs ih =>
    intro k h
    rw [Server.unscanned] at h
    split_ifs at h
    · exact h
    · exact List.mem_cons_of_mem _ (ih h)

theorem escapable_units {cs : List Char} (h : ∀ c ∈ cs, Xml.isKept c = true ∧ Server.textEntity c = none) :
    Server.Escapable (units cs) where
  wellFormed := by rw [← units_ofUnits_iff, ofUnits_units]
  kept c hc := (h c (by rwa [ofUnits_units] at hc)).1
  scanned c hc := (h c (by rw [← ofUnits_units cs]; exact mem_of_mem_unscanned hc)).2

theorem digit_plain {c : Char} (h : c.isDigit = true) : Xml.isKept c = true ∧ Server.textEntity c = none := by
  have hall : ∀ n < 58, 48 ≤ n → Xml.isKept (Char.ofNat n) = true ∧ Server.textEntity (Char.ofNat n) = none := by decide
  obtain ⟨hlow, hhigh⟩ := Decimal.isDigit_bounds h
  have := hall c.toNat (by omega) hlow
  rwa [Char.ofNat_toNat] at this

theorem escapable_decimal (n : ℕ) : Server.Escapable (decimal n) := by
  rw [decimal_eq]
  exact escapable_units fun c hc => digit_plain (Nat.isDigit_of_mem_toDigits (by decide) (by decide) hc)

theorem escapable_time (t : TimeFields) : Server.Escapable (timefieldToString t) := by
  have hdigits : ∀ n, ∀ c ∈ Nat.toDigits 10 n, Xml.isKept c = true ∧ Server.textEntity c = none := fun n c hc =>
    digit_plain (Nat.isDigit_of_mem_toDigits (by decide) (by decide) hc)
  rw [TimeFields.timefieldToString_eq]
  refine escapable_units fun c hc => ?_
  unfold TimeFields.chars at hc
  simp only [List.mem_append, List.mem_cons] at hc
  rcases hc with h | rfl | h | rfl | h | rfl | h | rfl | h | rfl | h | rfl | h
  all_goals first | exact hdigits _ _ h | decide

/-! ## The line -/

namespace Cpp.SystemEvent

def time : SystemEvent → TimeFields
  | process _ time .. => time
  | registry _ time .. => time
  | file _ time .. => time

/-- The names in an event. -/
def names : SystemEvent → List WString
  | process _ _ _ parentProcess _ name => [parentProcess, name]
  | registry registryEventType _ _ processPath registryEventPath => [processPath, registryEventType, registryEventPath]
  | file fileEventType _ _ processPath fileEventPath => [processPath, fileEventType, fileEventPath]

/-- The id of a process as the server writes it. -/
def idText (processId : UInt32) : String := if processId.toNat < 2 ^ 31 then toString processId.toNat else "-1"

/-- The line of an event that is not about a process. It has none if the id is too large. -/
def objectLine (type : String) (time : TimeFields) (processId : UInt32) (process action object : WString) :
    Except Exn String :=
  if processId.toNat < 2 ^ 31 then
    .ok (csvLine [type, time.shown, toString processId.toNat, text process, text action, text object, "-1"])
  else .error .numberFormat

/-- The line that is written for an event at once: the attributes but for the id. -/
def directLine : SystemEvent → String
  | process created time _ parentProcess processId name =>
    csvLine ["process", text (timefieldToString time), text parentProcess, if created then "created" else "terminated",
      text (decimal processId.toNat), text name]
  | registry registryEventType time _ processPath registryEventPath =>
    csvLine ["registry", text (timefieldToString time), text processPath, text registryEventType,
      text registryEventPath, "-1"]
  | file fileEventType time _ processPath fileEventPath =>
    csvLine ["file", text (timefieldToString time), text processPath, text fileEventType, text fileEventPath, "-1"]

/-- The line of the state change that is kept for an event. -/
def line : SystemEvent → Except Exn String
  | process created time parentProcessId parentProcess processId name =>
    .ok (csvLine ["process", time.shown, idText parentProcessId, text parentProcess,
      if created then "created" else "terminated", idText processId, text name])
  | registry registryEventType time processId processPath registryEventPath =>
    objectLine "registry" time processId processPath registryEventType registryEventPath
  | file fileEventType time processId processPath fileEventPath =>
    objectLine "file" time processId processPath fileEventType fileEventPath

end Cpp.SystemEvent

open Cpp.SystemEvent
open Client (eventLine stateChangeOf)

/-- The format of a machine in a time zone. `fromLocal` gives the instant at which a clock of the zone shows a time, and
`toLocal` what it shows at an instant, both in milliseconds. -/
structure Zoned (sdf : SimpleDateFormat) (toLocal fromLocal : ℤ → ℤ) : Prop where
  format : ∀ t, sdf.format t = String.ofList (utcFormat (toLocal t))
  parse : ∀ s, sdf.parse s = (utcParse s.toList).map fromLocal

theorem parseInt_text_decimal (n : ℕ) :
    parseInt (some (text (decimal n))) = if n < 2 ^ 31 then some (Int32.ofNat n) else none := by
  rw [decimal, text_lit, parseInt_toString]

theorem intToString_ofNat {n : ℕ} (h : n < 2 ^ 31) : intToString (Int32.ofNat n) = toString n := by
  rw [intToString, Int32.toInt_ofNat_of_lt h]
  rfl

theorem intToString_id (processId : UInt32) :
    intToString ((parseInt (some (text (decimal processId.toNat)))).getD (-1)) = idText processId := by
  rw [parseInt_text_decimal, idText]
  split_ifs with h
  · exact intToString_ofNat h
  · rfl

variable {sdf : SimpleDateFormat} {toLocal fromLocal : ℤ → ℤ} {time : TimeFields} {e : Element}

theorem setTime_time (hz : Zoned sdf toLocal fromLocal) (ht : time.Valid) :
    setTime sdf (some (text (timefieldToString time))) = .ok (fromLocal time.millis) := by
  have hparse : sdf.parse (text (timefieldToString time)) = some (fromLocal time.millis) := by
    rw [hz.parse, text, String.toList_ofList, TimeFields.timefieldToString_eq, ofUnits_units, TimeFields.parse_chars ht]
    rfl
  simp only [setTime, hparse]

/-- A time that the zone has is written with its fields. -/
theorem format_time (hz : Zoned sdf toLocal fromLocal) (ht : time.Valid)
    (hclock : toLocal (fromLocal time.millis) = time.millis) : sdf.format (fromLocal time.millis) = time.shown := by
  rw [hz.format, hclock, TimeFields.format_millis ht]

variable {type process action object1 object2 : WString} {processId : UInt32}

/-- The attributes that `sendSystemEvent` sends, as the server finds them. -/
theorem get_sent {name : WString} {children : List (Xml.Tree WString)}
    (h : e.wide = .mk name (Analyzer.sendSystemEvent type (timefieldToString time) processId process action object1
      object2) children) :
    e.get "time" = some (text (timefieldToString time)) ∧ e.get "type" = some (text type) ∧
      e.get "processId" = some (text (decimal processId.toNat)) ∧ e.get "process" = some (text process) ∧
      e.get "action" = some (text action) ∧ e.get "object1" = some (text object1) ∧
      e.get "object2" = some (text object2) := by
  simp only [get_of_wide h]
  exact ⟨rfl, rfl, rfl, rfl, rfl, rfl, rfl⟩

theorem stateChange_object (hz : Zoned sdf toLocal fromLocal) (ht : time.Valid)
    (hclock : toLocal (fromLocal time.millis) = time.millis) {name : WString} {children : List (Xml.Tree WString)} {kind : String}
    (hkind : kind ≠ "process")
    (h : e.wide = .mk name (Analyzer.sendSystemEvent (lit kind) (timefieldToString time) processId process action
      object1 (lit "-1")) children) :
    (stateChangeOf sdf e).map (·.toCSV sdf) = objectLine kind time processId process action object1 := by
  obtain ⟨htime, htype, hid, hprocess, haction, hobject1, hobject2⟩ := get_sent h
  rw [text_lit] at htype hobject2
  unfold stateChangeOf objectLine
  simp only [htype, if_neg hkind, htime, hid, hprocess, haction, hobject1, hobject2]
  unfold ObjectStateChange.new
  rw [setTime_time hz ht, parseInt_text_decimal]
  -- the constructor parses the id as an int
  by_cases hlt : processId.toNat < 2 ^ 31
  · rw [if_pos hlt, if_pos hlt]
    show Except.ok (StateChange.toCSV _ (.object _)) = _
    unfold StateChange.toCSV
    simp only [format_time hz ht hclock, intToString_ofNat hlt, orNull, Option.getD_some]
  · rw [if_neg hlt, if_neg hlt]
    rfl

theorem stateChange_process (hz : Zoned sdf toLocal fromLocal) (ht : time.Valid)
    (hclock : toLocal (fromLocal time.millis) = time.millis) {created : Bool} {id : UInt32} {name : WString}
    {children : List (Xml.Tree WString)}
    (h : e.wide = .mk name (Analyzer.sendSystemEvent (lit "process") (timefieldToString time) processId process
      (if created then lit "created" else lit "terminated") (decimal id.toNat) object2) children) :
    (stateChangeOf sdf e).map (·.toCSV sdf) =
      SystemEvent.line (.process created time processId process id object2) := by
  obtain ⟨htime, htype, hid, hprocess, haction, hobject1, hobject2⟩ := get_sent h
  rw [text_lit] at htype
  have hcreated : text (if created then lit "created" else lit "terminated") =
      if created then "created" else "terminated" := by
    split_ifs <;> exact text_lit _
  rw [hcreated] at haction
  unfold stateChangeOf SystemEvent.line
  simp only [htype, if_true, htime, hid, hprocess, haction, hobject1, hobject2]
  unfold ProcessRecord.new
  rw [setTime_time hz ht]
  show Except.ok (StateChange.toCSV _ (.process _)) = _
  unfold StateChange.toCSV
  simp only [format_time hz ht hclock, intToString_id, orNull, Option.getD_some]

theorem csvLine_six (a b c d e f : String) :
    "\"" ++ a ++ "\",\"" ++ b ++ "\",\"" ++ c ++ "\",\"" ++ d ++ "\",\"" ++ e ++ "\",\"" ++ f ++ "\"\n" =
      csvLine [a, b, c, d, e, f] := by
  rw [← String.toList_inj]
  simp [csvLine]

theorem eventLine_object {name : WString} {children : List (Xml.Tree WString)} {kind : String}
    (h : e.wide = .mk name (Analyzer.sendSystemEvent (lit kind) (timefieldToString time) processId process action
      object1 (lit "-1")) children) :
    eventLine e = csvLine [kind, text (timefieldToString time), text process, text action, text object1, "-1"] := by
  obtain ⟨htime, htype, -, hprocess, haction, hobject1, hobject2⟩ := get_sent h
  rw [text_lit] at htype hobject2
  unfold eventLine
  simp only [htype, htime, hprocess, haction, hobject1, hobject2, orNull, Option.getD_some]
  exact csvLine_six ..

theorem eventLine_process {created : Bool} {id : UInt32} {name : WString} {children : List (Xml.Tree WString)}
    (h : e.wide = .mk name (Analyzer.sendSystemEvent (lit "process") (timefieldToString time) processId process
      (if created then lit "created" else lit "terminated") (decimal id.toNat) object2) children) :
    eventLine e = SystemEvent.directLine (.process created time processId process id object2) := by
  obtain ⟨htime, htype, -, hprocess, haction, hobject1, hobject2⟩ := get_sent h
  rw [text_lit] at htype
  have hcreated : text (if created then lit "created" else lit "terminated") =
      if created then "created" else "terminated" := by
    split_ifs <;> exact text_lit _
  rw [hcreated] at haction
  unfold eventLine SystemEvent.directLine
  simp only [htype, htime, hprocess, haction, hobject1, hobject2, orNull, Option.getD_some]
  exact csvLine_six ..

/-- Of the attributes of a message only the names can be in the way. -/
theorem escapable_sent (time : TimeFields) (processId : UInt32) (type : WString) :
    (∀ a ∈ Analyzer.sendSystemEvent type (timefieldToString time) processId process action object1 object2,
      Server.Escapable a.2) ↔
      Server.Escapable type ∧ Server.Escapable process ∧ Server.Escapable action ∧ Server.Escapable object1 ∧
        Server.Escapable object2 := by
  unfold Analyzer.sendSystemEvent
  simp only [List.forall_mem_cons, List.not_mem_nil, false_imp_iff, implies_true, and_true, escapable_time,
    escapable_decimal, true_and]

theorem escapable_onEvent (event : SystemEvent) :
    (∀ a ∈ Analyzer.onEvent event, Server.Escapable a.2) ↔ ∀ v ∈ event.names, Server.Escapable v := by
  have hlits : Server.Escapable (lit "process") ∧ Server.Escapable (lit "registry") ∧ Server.Escapable (lit "file") ∧
      Server.Escapable (lit "created") ∧ Server.Escapable (lit "terminated") ∧ Server.Escapable (lit "-1") := by decide
  obtain ⟨hprocess, hregistry, hfile, hcreated, hterminated, hdummy⟩ := hlits
  cases event with
  | process created time parentProcessId parentProcess processId name =>
    have haction : Server.Escapable (if created then lit "created" else lit "terminated") := by
      split_ifs
      · exact hcreated
      · exact hterminated
    rw [Analyzer.onEvent, escapable_sent]
    simp [SystemEvent.names, hprocess, haction, escapable_decimal]
  | registry registryEventType time processId processPath registryEventPath =>
    rw [Analyzer.onEvent, escapable_sent]
    simp [SystemEvent.names, hregistry, hdummy]
  | file fileEventType time processId processPath fileEventPath =>
    rw [Analyzer.onEvent, escapable_sent]
    simp [SystemEvent.names, hfile, hdummy]

theorem attributeNames_onEvent (event : SystemEvent) : AttributeNames ((Analyzer.onEvent event).map Prod.fst) := by
  have hnames : (Analyzer.onEvent event).map Prod.fst = [lit "time", lit "type", lit "processId", lit "process",
      lit "action", lit "object1", lit "object2"] := by
    cases event <;> rfl
  rw [hnames]
  decide

/-- A file that is written on a leap day. -/
def leapDay : SystemEvent :=
  .file (lit "Write") ⟨2008, 2, 29, 9, 5, 7, 3⟩ 4 (lit "C:\\a&b.exe") (lit "C:\\x.txt")

/-- A machine whose clock is an hour ahead. -/
def hourAhead : SimpleDateFormat where
  format t := String.ofList (utcFormat (t + 3600000))
  parse s := (utcParse s.toList).map (· - 3600000)
  parse_format t := by
    rw [String.toList_ofList, Option.isSome_map]
    exact utcParse_utcFormat _

example : leapDay.directLine =
    "\"file\",\"29/2/2008 9:5:7.3\",\"C:\\a&b.exe\",\"Write\",\"C:\\x.txt\",\"-1\"\n" := by decide

example : leapDay.line = .ok
    "\"file\",\"29/02/2008 09:05:07.3\",\"4\",\"C:\\a&b.exe\",\"Write\",\"C:\\x.txt\",\"-1\"\n" := by decide

end CaptureHPC
