import AirspyhfWsprd.Ft8.Message

/-!
What a message leaves in the slot of the results that it is reported in. The slot holds an
older report, of which `decode_report_fields` clears the first bytes.
-/

namespace AirspyhfWsprd.Ft8

open Library Jt9

/-- The arrays of a result have their sizes, whatever they hold. -/
def Sized (result : Ft8DecodeResult) : Prop :=
  result.transmitterCall.length = 13 ∧ result.transmitterGrid.length = 7

/-- The text is a grid of four or six characters. -/
def IsLocator (text : CString) : Prop :=
  (stationNormalizeGrid (List.replicate 7 0) 7 text).1 = true

instance (text : CString) : Decidable (IsLocator text) :=
  inferInstanceAs (Decidable (_ = true))

/-- The sender's callsign and grid depend on the message alone, and a grid comes from a
locator in the message. -/
structure FieldsFromMessage (table : CallsignTable) (message : FtxMessage) : Prop where
  independent : ∀ old other, Sized old → Sized other →
    cstr (reportMessage message table old).1.transmitterCall =
        cstr (reportMessage message table other).1.transmitterCall ∧
      cstr (reportMessage message table old).1.transmitterGrid =
        cstr (reportMessage message table other).1.transmitterGrid
  locator : ∀ old, Sized old → cstr (reportMessage message table old).1.transmitterGrid ≠ [] →
    ∃ fields, (reportFields message table).1 = some fields ∧ IsLocator fields.extra

/-- A standard message from a sender that is reported, with an `R` in front of its grid or
of its signal report. -/
def RogerMessage (table : CallsignTable) (message : FtxMessage) : Prop :=
  ftxMessageGetType message = .standard ∧ message.ir ≠ 0 ∧
    (message.igrid4 ≤ maxgrid4 ∨ maxgrid4 + 4 < message.igrid4) ∧
    ∃ fields, (reportFields message table).1 = some fields ∧
      IsReportCallsign (reportInner fields.callDe)

/-- A letter of a grid's field. -/
def isField (c : UInt8) : Bool := 'A'.toUInt8 ≤ c && c ≤ 'R'.toUInt8

/-- An extra field that the grid's validator takes whole or does not look into: a grid of
four characters, or a text of another length than a grid. -/
inductive ExtraKind : CString → Prop
  | otherLength {extra : CString} (hlength : extra.length ≠ 4 ∧ extra.length ≠ 6) :
      ExtraKind extra
  | square {a b c d : UInt8} (hletters : isField a = true ∧ isField b = true)
      (hdigits : isdigit c = true ∧ isdigit d = true) : ExtraKind [a, b, c, d]

theorem isField_letter : ∀ n < 18, isField (UInt8.ofNat ('A'.toNat + n)) = true := by decide

theorem isdigit_digit : ∀ n < 10, isdigit (UInt8.ofNat ('0'.toNat + n)) = true := by decide

theorem gridSquare_square (n : Nat) : ExtraKind (gridSquare n) :=
  .square
    ⟨isField_letter _ (Nat.mod_lt _ (by decide)), isField_letter _ (Nat.mod_lt _ (by decide))⟩
    ⟨isdigit_digit _ (Nat.mod_lt _ (by decide)), isdigit_digit _ (Nat.mod_lt _ (by decide))⟩

/-- A signal report is a sign and two digits. -/
theorem intToDd_report (value : Int) :
    ∃ sign d e, intToDd value 2 true = [sign, d, e] ∧ isField sign = false := by
  rw [intToDd]
  split
  · exact ⟨_, _, _, rfl, by decide⟩
  · exact ⟨_, _, _, rfl, by decide⟩

/-- But for a locator that was sent with an R, and for a report, which may have one, the third
field is a grid of four characters or a text of another length than a grid. -/
theorem unpackgrid_plain {igrid4 ir : Nat}
    (h : ¬ (ir ≠ 0 ∧ (igrid4 ≤ maxgrid4 ∨ maxgrid4 + 4 < igrid4))) :
    ExtraKind (unpackgrid igrid4 ir) := by
  rw [unpackgrid]
  split
  · rename_i hgrid
    have hzero : ¬ ir > 0 := fun hpos => h ⟨Nat.ne_of_gt hpos, Or.inl hgrid⟩
    rw [if_neg hzero]
    exact gridSquare_square igrid4
  · dsimp only
    split
    · exact .otherLength (by decide)
    split
    · exact .otherLength (by decide)
    split
    · exact .square (by decide) (by decide)
    split
    · exact .otherLength (by decide)
    · have hzero : ¬ ir > 0 := fun hpos => h ⟨Nat.ne_of_gt hpos, Or.inr (by omega)⟩
      obtain ⟨sign, d, e, hreport, -⟩ := intToDd_report ((igrid4 - maxgrid4 : Nat) - 35)
      rw [if_neg hzero, hreport]
      exact .otherLength ⟨nofun, nofun⟩

theorem unpackgrid_roger {igrid4 ir : Nat} (hir : ir ≠ 0)
    (h : igrid4 ≤ maxgrid4 ∨ maxgrid4 + 4 < igrid4) :
    ∃ c rest, unpackgrid igrid4 ir = 'R'.toUInt8 :: c :: rest ∧ isField c = false ∧
      (rest.length = 2 ∨ rest.length = 4) := by
  have hpos : ir > 0 := Nat.pos_of_ne_zero hir
  rw [unpackgrid]
  split
  · exact ⟨' '.toUInt8, gridSquare igrid4, rfl, by decide, Or.inr rfl⟩
  · have hreport : maxgrid4 + 4 < igrid4 := h.resolve_left (by assumption)
    obtain ⟨sign, d, e, hsigned, hfield⟩ := intToDd_report ((igrid4 - maxgrid4 : Nat) - 35)
    dsimp only
    rw [if_neg (by omega), if_neg (by omega), if_neg (by omega), if_neg (by omega), hsigned]
    exact ⟨sign, [d, e], rfl, hfield, Or.inl rfl⟩

theorem nonstdExtra_kind (icq nrpt : Nat) : ExtraKind (nonstdExtra icq nrpt) := by
  rw [nonstdExtra]
  split
  · split
    · exact .otherLength (by decide)
    split
    · exact .square (by decide) (by decide)
    split
    · exact .otherLength (by decide)
    · exact .otherLength (by decide)
  · exact .otherLength (by decide)

theorem cstr_cleared (buffer : List UInt8) : cstr (buffer.set 0 0) = [] := by
  cases buffer with
  | nil => rfl
  | cons c rest => rfl

theorem normalizeReportGrid_length {destination : List UInt8} {source : CString}
    (h : source.length ≠ 4 ∧ source.length ≠ 6) :
    (normalizeReportGrid destination source).2 = destination := by
  rw [normalizeReportGrid, if_pos h]

theorem reportGridLoop_letter {index : Nat} {destination : List UInt8} {c : UInt8} {rest : CString}
    (hindex : index < 2) (hc : isField c = true) :
    reportGridLoop index destination (c :: rest) =
      reportGridLoop (index + 1) (destination.set index c) rest := by
  have hbelow : ¬ index ≥ 4 := by omega
  rw [isField] at hc
  simp only [reportGridLoop, if_pos hindex, hc, Bool.not_true, Bool.false_eq_true, if_false,
    if_neg hbelow]

theorem reportGridLoop_digit {index : Nat} {destination : List UInt8} {c : UInt8} {rest : CString}
    (hindex : index = 2 ∨ index = 3) (hc : isdigit c = true) :
    reportGridLoop index destination (c :: rest) =
      reportGridLoop (index + 1) (destination.set index c) rest := by
  have habove : ¬ index < 2 := by omega
  have hinside : index < 4 := by omega
  have hbelow : ¬ index ≥ 4 := by omega
  simp only [reportGridLoop, if_neg habove, if_pos hinside, hc, Bool.not_true,
    Bool.false_eq_true, if_false, if_neg hbelow]

/-- The grid of a square replaces what the slot held. -/
theorem normalizeReportGrid_square {a b c d : UInt8}
    (hletters : isField a = true ∧ isField b = true)
    (hdigits : isdigit c = true ∧ isdigit d = true) {destination : List UInt8}
    (hsize : destination.length = 7) :
    cstr (normalizeReportGrid destination [a, b, c, d]).2 = [a, b, c, d] := by
  have hletter : ∀ c, isField c = true → c ≠ 0 := forall_byte (by decide +kernel)
  have hdigit : ∀ c, isdigit c = true → c ≠ 0 := forall_byte (by decide +kernel)
  have hnonzero : ∀ x ∈ [a, b, c, d], x ≠ 0 := by
    simp only [List.forall_mem_cons]
    exact ⟨hletter a hletters.1, hletter b hletters.2, hdigit c hdigits.1, hdigit d hdigits.2,
      List.forall_mem_nil _⟩
  obtain ⟨p, q, r, s, t, rest, rfl⟩ : ∃ p q r s t rest,
      destination = p :: q :: r :: s :: t :: rest := by
    match destination, hsize with
    | p :: q :: r :: s :: t :: rest, _ => exact ⟨p, q, r, s, t, rest, rfl⟩
  rw [normalizeReportGrid, if_neg (by simp), reportGridLoop_letter (by decide) hletters.1,
    reportGridLoop_letter (by decide) hletters.2, reportGridLoop_digit (Or.inl rfl) hdigits.1,
    reportGridLoop_digit (Or.inr rfl) hdigits.2]
  exact cstr_append hnonzero rest

/-- A refused extra field leaves its `R` in front of what the slot held. -/
theorem normalizeReportGrid_roger {c : UInt8} {rest : CString} (hc : isField c = false)
    (hlength : rest.length = 2 ∨ rest.length = 4) (destination : List UInt8) :
    (normalizeReportGrid destination ('R'.toUInt8 :: c :: rest)).2 =
      destination.set 0 'R'.toUInt8 := by
  have hsize : ¬ (('R'.toUInt8 :: c :: rest).length ≠ 4 ∧
      ('R'.toUInt8 :: c :: rest).length ≠ 6) := by
    rw [List.length_cons, List.length_cons]
    omega
  rw [isField] at hc
  rw [normalizeReportGrid, if_neg hsize, reportGridLoop_letter (by decide) (by decide)]
  simp only [reportGridLoop, Nat.zero_add, Nat.one_lt_two, if_true, hc, Bool.not_false]

theorem square_locator {a b c d : UInt8} (hletters : isField a = true ∧ isField b = true)
    (hdigits : isdigit c = true ∧ isdigit d = true) : IsLocator [a, b, c, d] := by
  have hupper : ∀ c, isField c = true → toupper c = c := forall_byte (by decide +kernel)
  have ha := hletters.1
  have hb := hletters.2
  rw [isField] at ha hb
  simp only [IsLocator, stationNormalizeGrid, hupper a hletters.1, hupper b hletters.2, ha, hb,
    hdigits.1, hdigits.2]
  rfl

variable {table : CallsignTable} {message : FtxMessage} {old : Ft8DecodeResult}

/-- Without fields, or with a sender that is refused, nothing is reported. -/
theorem report_nothing
    (h : ∀ fields, (reportFields message table).1 = some fields →
      ¬ IsReportCallsign (reportInner fields.callDe)) (hold : Sized old) :
    cstr (reportMessage message table old).1.transmitterCall = [] ∧
      cstr (reportMessage message table old).1.transmitterGrid = [] := by
  have hsize : (old.transmitterCall.set 0 0).length = 13 := List.length_set.trans hold.1
  rw [reportMessage]
  rcases hfields : (reportFields message table).1 with _ | fields
  · simp only [hfields, decodeReportFields, cstr_cleared, and_self]
  · have hrefused := mt (normalizeReportCallsign_accepts_iff hsize).mp (h fields hfields)
    simp only [hfields, decodeReportFields]
    split
    · exact ⟨cstr_cleared _, cstr_cleared _⟩
    · rename_i call hcall
      rw [hcall] at hrefused
      exact absurd rfl hrefused

/-- For an accepted sender the slot has the callsign as the validator writes it, and for its
grid what the grid's validator leaves of the old one, whose first byte is cleared before. -/
theorem report_accepted {fields : MessageFields}
    (hfields : (reportFields message table).1 = some fields)
    (hcallsign : IsReportCallsign (reportInner fields.callDe)) (hold : Sized old) :
    cstr (reportMessage message table old).1.transmitterCall =
        (reportInner fields.callDe).map toupper ∧
      (reportMessage message table old).1.transmitterGrid =
        (normalizeReportGrid (old.transmitterGrid.set 0 0) fields.extra).2 := by
  have hsize : (old.transmitterCall.set 0 0).length = 13 := List.length_set.trans hold.1
  obtain ⟨haccepted, hnormalized⟩ := normalizeReportCallsign_accepted hcallsign hsize
  simp only [reportMessage, hfields, decodeReportFields]
  split
  · rename_i call hcall
    rw [hcall] at haccepted
    cases haccepted
  · rename_i call hcall
    rw [hcall] at hnormalized
    exact ⟨hnormalized, rfl⟩

/-- The grid that an extra field of either kind leaves does not depend on the slot. -/
theorem ExtraKind.grid {extra : CString} (h : ExtraKind extra) :
    (∀ grid : List UInt8, cstr (normalizeReportGrid (grid.set 0 0) extra).2 = []) ∨
      IsLocator extra ∧ ∀ grid : List UInt8, grid.length = 7 →
        cstr (normalizeReportGrid (grid.set 0 0) extra).2 = extra := by
  cases h with
  | otherLength hlength =>
      refine Or.inl fun grid => ?_
      rw [normalizeReportGrid_length hlength, cstr_cleared]
  | square hletters hdigits =>
      refine Or.inr ⟨square_locator hletters hdigits, fun grid hgrid => ?_⟩
      exact normalizeReportGrid_square hletters hdigits (List.length_set.trans hgrid)

/-- The third field comes from one of the two kinds of message that have fields at all: a
standard message or one with a nonstandard call. -/
theorem reportFields_extra {fields : MessageFields}
    (hfields : (reportFields message table).1 = some fields) :
    ftxMessageGetType message = .standard ∧
        fields.extra = unpackgrid message.igrid4 message.ir ∨
      ftxMessageGetType message = .nonstdCall ∧
        fields.extra = nonstdExtra message.icq message.nrpt := by
  rw [reportFields] at hfields
  split at hfields
  · rename_i hstandard
    refine Or.inl ⟨hstandard, ?_⟩
    rw [ftxMessageDecodeStd] at hfields
    split at hfields
    · cases hfields
    split at hfields
    · cases hfields
    · rw [← Option.some.inj hfields]
  · rename_i hnonstd
    refine Or.inr ⟨hnonstd, ?_⟩
    rw [← Option.some.inj hfields]
    rfl
  · cases hfields

/-- A slot whose grid is filled with these bytes behind its first one. -/
def slotWithGrid (grid : List UInt8) : Ft8DecodeResult where
  snr := .nan false
  dt := .nan false
  audioFrequencyHz := .nan false
  transmitterCall := List.replicate 13 0
  transmitterGrid := grid
  message := []

theorem fieldsFromMessage_refused
    (h : ∀ fields, (reportFields message table).1 = some fields →
      ¬ IsReportCallsign (reportInner fields.callDe)) : FieldsFromMessage table message := by
  constructor
  · intro old other hold hother
    obtain ⟨holdCall, holdGrid⟩ := report_nothing h hold
    obtain ⟨hotherCall, hotherGrid⟩ := report_nothing h hother
    rw [holdCall, hotherCall, holdGrid, hotherGrid]
    exact ⟨rfl, rfl⟩
  · intro old hold hne
    exact absurd (report_nothing h hold).2 hne

/-- When the sender is accepted and the third field is of one of the plain kinds, everything
reported is from the message, and nothing of the older report shows. -/
theorem fieldsFromMessage_accepted {fields : MessageFields}
    (hfields : (reportFields message table).1 = some fields)
    (hcallsign : IsReportCallsign (reportInner fields.callDe))
    (hextra : ExtraKind fields.extra) : FieldsFromMessage table message := by
  constructor
  · intro old other hold hother
    obtain ⟨holdCall, holdGrid⟩ := report_accepted hfields hcallsign hold
    obtain ⟨hotherCall, hotherGrid⟩ := report_accepted hfields hcallsign hother
    rw [holdCall, hotherCall, holdGrid, hotherGrid]
    refine ⟨rfl, ?_⟩
    rcases hextra.grid with hempty | ⟨-, hlocator⟩
    · rw [hempty, hempty]
    · rw [hlocator _ hold.2, hlocator _ hother.2]
  · intro old hold hne
    rw [(report_accepted hfields hcallsign hold).2] at hne
    rcases hextra.grid with hempty | ⟨hlocator, -⟩
    · exact absurd (hempty _) hne
    · exact ⟨fields, hfields, hlocator⟩

/-- The grid of such a message depends on the slot. -/
theorem RogerMessage.not_fieldsFromMessage (h : RogerMessage table message) :
    ¬ FieldsFromMessage table message := by
  obtain ⟨hstandard, hir, hgrid, fields, hfields, hcallsign⟩ := h
  intro hfrom
  have hextra := (reportFields_extra hfields).resolve_right (by simp [hstandard])
  obtain ⟨c, rest, hroger, hc, hlength⟩ := unpackgrid_roger hir hgrid
  have hslot (grid : List UInt8) (hsize : grid.length = 7) :
      (reportMessage message table (slotWithGrid grid)).1.transmitterGrid =
        (grid.set 0 0).set 0 'R'.toUInt8 := by
    have hold : Sized (slotWithGrid grid) := ⟨rfl, hsize⟩
    rw [(report_accepted hfields hcallsign hold).2, hextra.2, hroger,
      normalizeReportGrid_roger hc hlength]
    rfl
  have hsame := (hfrom.independent (slotWithGrid (List.replicate 7 0))
    (slotWithGrid (bytes "FN42ab" ++ [0])) ⟨rfl, rfl⟩ ⟨rfl, rfl⟩).2
  rw [hslot _ rfl, hslot _ rfl] at hsame
  exact absurd hsame (by decide)

/-- The reported fields come from the message alone, unless an `R` in front of a grid or of a
signal report has been taken for the first letter of a grid. That letter is then in the slot,
and the letters that the slot held behind it are reported with it. -/
theorem fields_from_message_iff (table : CallsignTable) (message : FtxMessage) :
    FieldsFromMessage table message ↔ ¬ RogerMessage table message := by
  refine ⟨fun hfrom hroger => hroger.not_fieldsFromMessage hfrom, fun hplain => ?_⟩
  rcases Classical.em (∃ fields, (reportFields message table).1 = some fields ∧
    IsReportCallsign (reportInner fields.callDe)) with ⟨fields, hfields, hcallsign⟩ | hrefused
  · refine fieldsFromMessage_accepted hfields hcallsign ?_
    rcases reportFields_extra hfields with ⟨hstandard, hextra⟩ | ⟨-, hextra⟩
    · rw [hextra]
      exact unpackgrid_plain fun ⟨hir, hgrid⟩ =>
        hplain ⟨hstandard, hir, hgrid, fields, hfields, hcallsign⟩
    · rw [hextra]
      exact nonstdExtra_kind _ _
  · exact fieldsFromMessage_refused fun fields hfields hcallsign =>
      hrefused ⟨fields, hfields, hcallsign⟩

/-- `K1ABC W9XYZ R-10` -/
def rogerMessage : FtxMessage where
  payload := [9, 189, 227, 80, 97, 73, 220, 63, 170, 72]
  hash := 0
  tenBytes := rfl

/-- In a slot that held the grid `FN42ab` the report ends with the grid `RN42ab`. -/
theorem roger_keeps_old_grid : ¬ FieldsFromMessage callsignTableReset rogerMessage := by
  intro hfrom
  have hgrid : cstr (reportMessage rogerMessage callsignTableReset
      (slotWithGrid (bytes "FN42ab" ++ [0]))).1.transmitterGrid = bytes "RN42ab" := by
    decide +kernel
  obtain ⟨fields, hfields, hlocator⟩ := hfrom.locator (slotWithGrid (bytes "FN42ab" ++ [0]))
    ⟨rfl, rfl⟩ (by rw [hgrid]; decide)
  have hextra : (reportFields rogerMessage callsignTableReset).1.map (·.extra) =
      some (bytes "R-10") := by
    decide +kernel
  rw [hfields] at hextra
  have hreport : fields.extra = bytes "R-10" := Option.some.inj hextra
  rw [hreport] at hlocator
  exact absurd hlocator (by decide)

end AirspyhfWsprd.Ft8
