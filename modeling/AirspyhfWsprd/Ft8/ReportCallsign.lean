import AirspyhfWsprd.Ft8.MessageFields
import AirspyhfWsprd.Jt9.TransmitterCall

/-!
The sender's callsign is validated twice: `normalize_report_callsign` for the built-in
decoder, and `station_normalize_callsign` behind `normalize_jt9_callsign` for jt9. The
rules differ in what they say about slashes.
-/

namespace AirspyhfWsprd.Ft8

open Library Jt9

/-- Both validators accept the text, as the same callsign, or both refuse it. -/
def ValidatorsAgree (source : CString) : Prop :=
  ∀ report jt9 : List UInt8, report.length = 13 → jt9.length = 13 →
    (normalizeReportCallsign report source).1 = (normalizeJt9Callsign jt9 source).1 ∧
      ((normalizeReportCallsign report source).1 = true →
        (normalizeJt9Callsign jt9 source).1 = true →
        cstr (normalizeReportCallsign report source).2 =
          cstr (normalizeJt9Callsign jt9 source).2)

/-- A slash at an end of the text, or two in a row. -/
def MisplacedSlash (text : CString) : Prop :=
  text.head? = some slash ∨ text.getLast? = some slash ∨
    ¬ text.IsChain fun a b => ¬ (b = slash ∧ a = slash)

variable {source : CString}

theorem isCallsign_iff {text : CString} :
    IsCallsign text ↔ IsReportCallsign text ∧ ¬ MisplacedSlash text := by
  rw [MisplacedSlash, not_or, not_or, Decidable.not_not]
  constructor
  · intro h
    exact ⟨.of_callsign h, h.inner.1, h.inner.2, h.single⟩
  · rintro ⟨⟨hlength, hcharacters, hletter, hdigit⟩, hfirst, hlast, hsingle⟩
    exact ⟨hlength, hcharacters, ⟨hfirst, hlast⟩, hsingle, hletter, hdigit⟩

/-- The decoders take the same text out of the brackets, except when it is too long for
a callsign with and without them. -/
theorem unwrapped_eq_or_long (source : CString) :
    unwrapped source = reportInner source ∨
      12 < (unwrapped source).length ∧ 12 < (reportInner source).length := by
  rw [unwrapped, reportInner]
  split
  · rename_i hboth
    rw [Bool.and_eq_true] at hboth
    rw [if_pos hboth.1]
    exact Or.inl rfl
  · rename_i hnot
    split
    · rename_i hbrackets
      have hlong : ¬ source.length - 2 < 13 := fun hroom =>
        hnot (Bool.and_eq_true_iff.mpr ⟨hbrackets, decide_eq_true hroom⟩)
      rw [List.length_take, List.length_drop]
      exact Or.inr ⟨by omega, by omega⟩
    · exact Or.inl rfl

theorem isCallsign_unwrapped_iff :
    IsCallsign (unwrapped source) ↔ IsCallsign (reportInner source) := by
  rcases unwrapped_eq_or_long source with heq | ⟨hunwrapped, hinner⟩
  · rw [heq]
  · exact iff_of_false (fun h => Nat.not_le_of_lt hunwrapped h.length.2)
      fun h => Nat.not_le_of_lt hinner h.length.2

theorem normalizeJt9Callsign_accepted (h : IsCallsign (unwrapped source)) {jt9 : List UInt8}
    (hjt9 : jt9.length = 13) :
    cstr (normalizeJt9Callsign jt9 source).2 = (unwrapped source).map toupper :=
  stationNormalizeCallsign_output h (Nat.lt_succ_of_le h.length.2) hjt9

/-- The validators agree on everything but a callsign with a misplaced slash, which only the
built-in decoder accepts. A slash is misplaced at either end and behind another one. -/
theorem validators_agree_iff (source : CString) :
    ValidatorsAgree source ↔
      ¬ (IsReportCallsign (reportInner source) ∧ MisplacedSlash (reportInner source)) := by
  have haccepts (report jt9 : List UInt8) (hreport : report.length = 13) :
      ((normalizeReportCallsign report source).1 = true ↔
        IsReportCallsign (reportInner source)) ∧
      ((normalizeJt9Callsign jt9 source).1 = true ↔
        IsReportCallsign (reportInner source) ∧ ¬ MisplacedSlash (reportInner source)) := by
    rw [normalizeReportCallsign_accepts_iff hreport, normalizeJt9Callsign_accepts_iff,
      isCallsign_unwrapped_iff, isCallsign_iff]
    exact ⟨Iff.rfl, Iff.rfl⟩
  constructor
  · rintro hagree ⟨hcallsign, hslash⟩
    obtain ⟨hreport, hjt9⟩ := haccepts noCall noCall rfl
    have hboth := hreport.mpr hcallsign
    rw [(hagree noCall noCall rfl rfl).1, hjt9] at hboth
    exact hboth.2 hslash
  · intro hplaced report jt9 hreport hjt9
    obtain ⟨hreportAccepts, hjt9Accepts⟩ := haccepts report jt9 hreport
    refine ⟨Bool.eq_iff_iff.mpr ?_, fun hfirst hsecond => ?_⟩
    · rw [hreportAccepts, hjt9Accepts]
      exact ⟨fun h => ⟨h, fun hslash => hplaced ⟨h, hslash⟩⟩, And.left⟩
    · have hcallsign := normalizeJt9Callsign_accepts_iff.mp hsecond
      rw [(normalizeReportCallsign_accepted (hreportAccepts.mp hfirst) hreport).2,
        normalizeJt9Callsign_accepted hcallsign hjt9]
      rcases unwrapped_eq_or_long source with heq | ⟨hlong, -⟩
      · rw [heq]
      · exact absurd hcallsign.length.2 (Nat.not_le_of_lt hlong)

/-- The built-in decoder accepts a callsign with two slashes in a row, and the parser of `jt9`
refuses it. -/
theorem double_slash_disagrees : ¬ ValidatorsAgree (bytes "N0//P") := by
  intro hagree
  exact absurd (hagree noCall noCall rfl rfl).1 (by decide)

end AirspyhfWsprd.Ft8
