import AirspyhfWsprd.Jt9.MergeResults
import AirspyhfWsprd.Jt9.SenderAgreement

/-!
One message in the results of both decoders. The built-in decoder joins its fields with
blanks, the empty ones too; the parser of jt9's lines cuts the white space at the end.
So the merge sees two messages where a field is empty.
-/

namespace AirspyhfWsprd.Jt9

open Library Ft8

/-- The fields fit in the buffers of `ftx_message_decode`, and the grid, the report or
the acknowledgement does not end in white space. -/
structure FieldsFit (fields : MessageFields) : Prop where
  callTo : fields.callTo.length ≤ 13
  callDe : fields.callDe.length ≤ 13
  extra : fields.extra.length ≤ 6
  extra_end : ∀ hne : fields.extra ≠ [], isspace (fields.extra.getLast hne) = false

/-- The text that `ft8_decode_frame` gets from `ftx_message_decode`. -/
def fieldsText (fields : MessageFields) : CString :=
  ftxMessageText (some fields.callTo) (some fields.callDe) (some fields.extra)

/-- A result of `ft8_decode_frame` for the fields. -/
def DecodedByFt8Lib (fields : MessageFields) (result : Ft8DecodeResult) : Prop :=
  result.message = copyText ftxMaxMessageLength (fieldsText fields)

/-- The fields that are not empty. -/
def filledFields (fields : MessageFields) : List CString :=
  [fields.callTo, fields.callDe, fields.extra].filter (!·.isEmpty)

/-- A result of a line of jt9 whose message part is the non-empty fields and padding. -/
def DecodedByJt9 (fields : MessageFields) (result : Ft8DecodeResult) : Prop :=
  ∃ line scanned padding, scanJt9Line line = some scanned ∧
    jt9ParseDecodeLine line = some result ∧
    line.drop scanned.messageOffset = joined (filledFields fields) ++ padding ∧
    ∀ c ∈ padding, isspace c = true

theorem decodeReportFields_message (result : Ft8DecodeResult) :
    (decodeReportFields result).message = result.message := by
  rw [decodeReportFields]
  split <;> rfl

theorem jt9ParseDecodeLine_message {line : CString} {scanned : Jt9Fields}
    {result : Ft8DecodeResult} (hscan : scanJt9Line line = some scanned)
    (hresult : jt9ParseDecodeLine line = some result) :
    result.message = messageText line scanned.messageOffset := by
  rw [jt9ParseDecodeLine, hscan, Option.bind_eq_bind, Option.bind_some] at hresult
  split at hresult
  · cases hresult
  · dsimp only at hresult
    split at hresult
    · cases hresult
    · obtain rfl := Option.some.inj hresult
      exact decodeReportFields_message _

theorem rdropWhile_append_all {p : UInt8 → Bool} (text : CString) {padding : CString}
    (h : ∀ c ∈ padding, p c = true) :
    (text ++ padding).rdropWhile p = text.rdropWhile p := by
  have hreverse : ∀ c ∈ padding.reverse, p c = true := by
    intro c hc
    exact h c (List.mem_reverse.mp hc)
  rw [List.rdropWhile, List.reverse_append, List.dropWhile_append_of_pos hreverse,
    List.rdropWhile]

theorem joined_length (words : List CString) :
    (joined words).length = (words.map List.length).sum + (words.length - 1) := by
  rw [joined]
  induction words with
  | nil => rfl
  | cons word rest ih =>
      cases rest with
      | nil => simp
      | cons next rest =>
          rw [List.intercalate_cons_cons, List.length_append, List.length_append, ih]
          simp only [List.map_cons, List.sum_cons, List.length_cons, List.length_nil]
          omega

theorem fieldsText_length (fields : MessageFields) :
    (fieldsText fields).length =
      fields.callTo.length + fields.callDe.length + fields.extra.length + 2 := by
  have hblank : (bytes " ").length = 1 := rfl
  rw [fieldsText, ftxMessageText]
  simp only [List.length_append, hblank]
  omega

theorem filledFields_length (fields : MessageFields) :
    ((filledFields fields).map List.length).sum =
      fields.callTo.length + fields.callDe.length + fields.extra.length := by
  rw [filledFields]
  rcases fields with ⟨_ | ⟨a, callTo⟩, _ | ⟨b, callDe⟩, _ | ⟨c, extra⟩⟩ <;> simp [Nat.add_assoc]

/-- No field is empty. -/
def AllFilled (fields : MessageFields) : Prop :=
  fields.callTo ≠ [] ∧ fields.callDe ≠ [] ∧ fields.extra ≠ []

theorem filledFields_all {fields : MessageFields} (h : AllFilled fields) :
    filledFields fields = [fields.callTo, fields.callDe, fields.extra] := by
  apply List.filter_eq_self.mpr
  simp [h.1, h.2.1, h.2.2]

theorem filledFields_few {fields : MessageFields} (h : ¬ AllFilled fields) :
    (filledFields fields).length ≤ 2 := by
  rcases fields with ⟨_ | ⟨a, callTo⟩, _ | ⟨b, callDe⟩, _ | ⟨c, extra⟩⟩
  case cons.cons.cons => simp [AllFilled] at h
  all_goals simp [filledFields]

theorem joined_fits {fields : MessageFields} (h : FieldsFit fields) :
    (joined (filledFields fields)).length ≤ ftxMaxMessageLength - 1 := by
  have hwords : (filledFields fields).length ≤ 3 := List.length_filter_le _ _
  have hcallTo := h.callTo
  have hcallDe := h.callDe
  have hextra := h.extra
  rw [joined_length, filledFields_length, ftxMaxMessageLength]
  omega

/-- The message of jt9's result. -/
theorem jt9_message {fields : MessageFields} (h : FieldsFit fields) {result : Ft8DecodeResult}
    (hjt9 : DecodedByJt9 fields result) :
    result.message = (joined (filledFields fields)).rdropWhile isspace := by
  obtain ⟨line, scanned, padding, hscan, hresult, hline, hpadding⟩ := hjt9
  rw [jt9ParseDecodeLine_message hscan hresult, messageText, hline, copyText, List.take_append,
    List.take_of_length_le (joined_fits h)]
  exact rdropWhile_append_all _ fun c hc => hpadding c (List.mem_of_mem_take hc)

theorem fieldsText_fits {fields : MessageFields} (h : FieldsFit fields) :
    copyText ftxMaxMessageLength (fieldsText fields) = fieldsText fields := by
  have hcallTo := h.callTo
  have hcallDe := h.callDe
  have hextra := h.extra
  apply List.take_of_length_le
  rw [fieldsText_length, ftxMaxMessageLength]
  omega

/-- Both decoders give the same text when no field is empty. -/
theorem joined_allFilled {fields : MessageFields} (hfit : FieldsFit fields)
    (h : AllFilled fields) :
    (joined (filledFields fields)).rdropWhile isspace = fieldsText fields := by
  have htext : joined (filledFields fields) = fieldsText fields := by
    rw [filledFields_all h]
    simp [joined, fieldsText, ftxMessageText, List.intercalate, bytes]
  have hlast (hne : fieldsText fields ≠ []) :
      (fieldsText fields).getLast hne = fields.extra.getLast h.2.2 :=
    List.getLast_append_of_right_ne_nil _ _ h.2.2
  rw [htext, List.rdropWhile_eq_self_iff]
  intro hne
  rw [hlast, hfit.extra_end]
  exact Bool.false_ne_true

/-- An empty field leaves one blank fewer in jt9's text. -/
theorem joined_shorter {fields : MessageFields} (h : ¬ AllFilled fields) :
    ((joined (filledFields fields)).rdropWhile isspace).length < (fieldsText fields).length := by
  have hprefix := (List.rdropWhile_prefix isspace (joined (filledFields fields))).length_le
  have hfew := filledFields_few h
  rw [joined_length, filledFields_length] at hprefix
  rw [fieldsText_length]
  omega

theorem messages_equal_iff {fields : MessageFields} (hfit : FieldsFit fields)
    {builtIn jt9 : Ft8DecodeResult} (hbuiltIn : DecodedByFt8Lib fields builtIn)
    (hjt9 : DecodedByJt9 fields jt9) : builtIn.message = jt9.message ↔ AllFilled fields := by
  rw [hbuiltIn, fieldsText_fits hfit, jt9_message hfit hjt9]
  constructor
  · intro heq
    by_contra hempty
    have hshorter := joined_shorter hempty
    rw [← heq] at hshorter
    exact Nat.lt_irrefl _ hshorter
  · exact fun hfilled => (joined_allFilled hfit hfilled).symm

/-- Two results become one exactly when they are the same transmission, unless the capacity
leaves room for only one of them anyway. -/
theorem merge_single (primary addition : Ft8DecodeResult) (capacity : Nat) :
    (jt9MergeResults [primary] capacity [addition]).length = 1 ↔
      capacity ≤ 1 ∨ sameTransmission primary addition = true := by
  rw [jt9MergeResults]
  split
  · rename_i hsmall
    exact iff_of_true rfl (Or.inl (Nat.le_of_lt hsmall))
  · rename_i hroom
    rw [mergeUnique]
    split
    · rename_i hmore
      rw [fillFirst]
      rcases hsame : sameTransmission primary addition
      · exact iff_of_false (by simp [fillFirst, mergeUnique]) (by simpa using hmore)
      · exact iff_of_true rfl (Or.inr rfl)
    · rename_i hfull
      exact iff_of_true rfl (Or.inl (Nat.le_of_not_lt hfull))

/-- The merge of one message's two results has one entry exactly when no field of the message
is empty, or there is no room for a second. The built-in decoder puts a blank in front of an
empty field, and `jt9` trims its line. -/
theorem merged_to_one_iff {fields : MessageFields} (hfit : FieldsFit fields)
    {builtIn jt9 : Ft8DecodeResult} (hbuiltIn : DecodedByFt8Lib fields builtIn)
    (hjt9 : DecodedByJt9 fields jt9)
    (hnear : builtIn.audioFrequencyHz.within 10 jt9.audioFrequencyHz = true) (capacity : Nat) :
    (jt9MergeResults [builtIn] capacity [jt9]).length = 1 ↔ capacity ≤ 1 ∨ AllFilled fields := by
  rw [merge_single, sameTransmission, hnear, Bool.and_true, beq_iff_eq,
    messages_equal_iff hfit hbuiltIn hjt9]

def sentGrid : MessageFields := ⟨bytes "CQ", bytes "K1ABC", bytes "FN42"⟩

def sentNoExtra : MessageFields := ⟨bytes "K1ABC", bytes "W9XYZ", []⟩

/-- The built-in decoder's result at 1369 Hz. -/
def builtInAt1369 (fields : MessageFields) : Ft8DecodeResult where
  snr := .finite true 5 0
  dt := .finite false 1 0
  audioFrequencyHz := .finite false 1369 0
  transmitterCall := List.replicate 13 0
  transmitterGrid := List.replicate 7 0
  message := copyText ftxMaxMessageLength (fieldsText fields)

/-- The line of jt9. -/
def lineAt1369 (fields : MessageFields) : CString :=
  bytes "000000  -5  0.8 1369 ~  " ++ joined (filledFields fields) ++ bytes "    "

theorem lineAt1369_decoded {fields : MessageFields}
    (hscan : (scanJt9Line (lineAt1369 fields)).map Jt9Fields.messageOffset = some 24)
    (haccepted : (jt9ParseDecodeLine (lineAt1369 fields)).isSome = true) :
    DecodedByJt9 fields ((jt9ParseDecodeLine (lineAt1369 fields)).get haccepted) := by
  obtain ⟨scanned, hscanned, hoffset⟩ := Option.map_eq_some_iff.mp hscan
  refine ⟨lineAt1369 fields, scanned, bytes "    ", hscanned, (Option.some_get _).symm, ?_, ?_⟩
  · rw [hoffset, lineAt1369, List.append_assoc]
    rfl
  · exact List.all_eq_true.mp rfl

theorem sentGrid_line : (jt9ParseDecodeLine (lineAt1369 sentGrid)).isSome = true := by
  decide +kernel

theorem sentNoExtra_line : (jt9ParseDecodeLine (lineAt1369 sentNoExtra)).isSome = true := by
  decide +kernel

theorem builtInAt1369_decoded (fields : MessageFields) :
    DecodedByFt8Lib fields (builtInAt1369 fields) := rfl

/-- A message with three fields. -/
theorem sentGrid_merged :
    (jt9MergeResults [builtInAt1369 sentGrid] 50
      [(jt9ParseDecodeLine (lineAt1369 sentGrid)).get sentGrid_line]).length = 1 :=
  (merged_to_one_iff ⟨by decide, by decide, by decide, by decide⟩ (builtInAt1369_decoded sentGrid)
    (lineAt1369_decoded (by decide +kernel) sentGrid_line) (by decide +kernel) 50).mpr
    (Or.inr ⟨by decide, by decide, by decide⟩)

/-- Without an extra field the built-in decoder's message ends in a blank, and the
message is reported twice. -/
theorem sentNoExtra_twice :
    ¬ ∀ fields builtIn jt9, FieldsFit fields → DecodedByFt8Lib fields builtIn →
      DecodedByJt9 fields jt9 →
      builtIn.audioFrequencyHz.within 10 jt9.audioFrequencyHz = true →
        fields.callTo ≠ [] → fields.callDe ≠ [] →
          (jt9MergeResults [builtIn] 50 [jt9]).length = 1 := by
  intro h
  have hone := h sentNoExtra (builtInAt1369 sentNoExtra) _
    ⟨by decide, by decide, by decide, by decide⟩ (builtInAt1369_decoded sentNoExtra)
    (lineAt1369_decoded (by decide +kernel) sentNoExtra_line) (by decide +kernel)
    (by decide) (by decide)
  exact absurd hone (by decide +kernel)

end AirspyhfWsprd.Jt9
