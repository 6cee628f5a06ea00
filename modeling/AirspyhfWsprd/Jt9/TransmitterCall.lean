import AirspyhfWsprd.Jt9.DecodeLine

/-!
What ends up in `transmitter_call`. The words that are tried write into one
buffer, and only a word that is accepted puts a terminator behind what it wrote.
When no word is accepted, the capital letters of a refused one stay.
-/

namespace AirspyhfWsprd.Jt9

open Library

theorem normalizeJt9Callsign_accepts_iff {destination : List UInt8} {source : CString} :
    (normalizeJt9Callsign destination source).1 = true ↔ IsCallsign (unwrapped source) := by
  rw [normalizeJt9Callsign, stationNormalizeCallsign_accepts_iff]
  exact ⟨fun h => h.1, fun h => ⟨h, Nat.lt_succ_of_le h.length.2⟩⟩

/-- The words that `decode_report_fields` tries as the transmitter's callsign. -/
def triedTokens (message : CString) : List CString :=
  match messageTokens message with
  | first :: second :: rest => if first = bytes "CQ" then second :: rest else [second]
  | _ => []

theorem decodeReportFields_call (result : Ft8DecodeResult) :
    (decodeReportFields result).transmitterCall =
      (tryCallsigns (result.transmitterCall.set 0 0) 1 (triedTokens result.message)).2 := by
  rcases htokens : messageTokens result.message with _ | ⟨first, _ | ⟨second, rest⟩⟩
  · simp only [decodeReportFields, triedTokens, htokens, tryCallsigns]
  · simp only [decodeReportFields, triedTokens, htokens, tryCallsigns]
  · simp only [decodeReportFields, triedTokens, htokens]
    split
    · rfl
    · simp only [tryCallsigns]
      split <;> rfl

section Tries

variable {call : List UInt8} {index : Nat} {tokens : List CString}

/-- A callsign among the words ends up in the buffer. -/
theorem tryCallsigns_accepted (index : Nat) (hcall : call.length = 13)
    (haccepted : ∃ token ∈ tokens, IsCallsign (unwrapped token)) :
    ∃ token ∈ tokens, IsCallsign (unwrapped token) ∧
      cstr (tryCallsigns call index tokens).2 = (unwrapped token).map toupper := by
  induction tokens generalizing call index with
  | nil => simp at haccepted
  | cons token rest ih =>
      rw [tryCallsigns]
      dsimp only
      split
      · rename_i h
        have hcallsign := normalizeJt9Callsign_accepts_iff.mp h
        exact ⟨token, List.mem_cons_self, hcallsign, stationNormalizeCallsign_output hcallsign
          (Nat.lt_succ_of_le hcallsign.length.2) hcall⟩
      · rename_i h
        rw [normalizeJt9Callsign_accepts_iff] at h
        obtain ⟨other, hother, hcallsign⟩ := haccepted
        rcases List.mem_cons.mp hother with rfl | hother
        · exact absurd hcallsign h
        · obtain ⟨winner, hwinner, h⟩ :=
            ih _ (stationNormalizeCallsign_length.trans hcall) ⟨other, hother, hcallsign⟩
          exact ⟨winner, List.mem_cons_of_mem _ hwinner, h⟩

/-- A word that stores its first character leaves a string behind. -/
theorem tryCallsigns_stored (hcall : call.length = 13)
    (hstored : cstr call ≠ [] ∨ ∃ token ∈ tokens, storesFirst (unwrapped token) = true) :
    cstr (tryCallsigns call index tokens).2 ≠ [] := by
  induction tokens generalizing call index with
  | nil => simpa [tryCallsigns] using hstored
  | cons token rest ih =>
      have hfirst (h : cstr call ≠ [] ∨ storesFirst (unwrapped token) = true) :
          cstr (normalizeJt9Callsign call token).2 ≠ [] := by
        rcases hstores : storesFirst (unwrapped token)
        · rw [normalizeJt9Callsign, stationNormalizeCallsign_untouched hstores]
          exact h.resolve_right (by simp [hstores])
        · exact stationNormalizeCallsign_stored hstores
            (Nat.lt_succ_of_le (storesFirst_length hstores)) (by
              rintro rfl
              cases hcall)
      rw [tryCallsigns]
      dsimp only
      split
      · rename_i haccepted
        exact hfirst (Or.inr (normalizeJt9Callsign_accepts_iff.mp haccepted).storesFirst)
      · refine ih (stationNormalizeCallsign_length.trans hcall) ?_
        rcases hstored with h | ⟨other, hother, h⟩
        · exact Or.inl (hfirst (Or.inl h))
        · rcases List.mem_cons.mp hother with rfl | hother
          · exact Or.inl (hfirst (Or.inr h))
          · exact Or.inr ⟨other, hother, h⟩

/-- Words that store nothing leave the buffer as it was. -/
theorem tryCallsigns_untouched
    (hnothing : ∀ token ∈ tokens, storesFirst (unwrapped token) = false) :
    (tryCallsigns call index tokens).2 = call := by
  induction tokens generalizing call index with
  | nil => rfl
  | cons token rest ih =>
      have huntouched : (normalizeJt9Callsign call token).2 = call :=
        stationNormalizeCallsign_untouched (hnothing token List.mem_cons_self)
      rw [tryCallsigns]
      dsimp only
      split
      · exact huntouched
      · rw [huntouched]
        exact ih fun t ht => hnothing t (List.mem_cons_of_mem _ ht)

/-- The first callsign among the words ends up in the buffer. -/
theorem tryCallsigns_first (before : List CString) {rest : List CString} {token : CString}
    (index : Nat) (hcall : call.length = 13)
    (hbefore : ∀ other ∈ before, ¬ IsCallsign (unwrapped other))
    (htoken : IsCallsign (unwrapped token)) :
    cstr (tryCallsigns call index (before ++ token :: rest)).2 = (unwrapped token).map toupper := by
  induction before generalizing call index with
  | nil =>
      rw [List.nil_append, tryCallsigns]
      dsimp only
      rw [if_pos (normalizeJt9Callsign_accepts_iff.mpr htoken)]
      exact stationNormalizeCallsign_output htoken (Nat.lt_succ_of_le htoken.length.2) hcall
  | cons other before ih =>
      obtain ⟨hother, hbefore⟩ := List.forall_mem_cons.mp hbefore
      rw [List.cons_append, tryCallsigns]
      dsimp only
      rw [if_neg fun h => hother (normalizeJt9Callsign_accepts_iff.mp h)]
      exact ih (index + 1) (stationNormalizeCallsign_length.trans hcall) hbefore

theorem tryCallsigns_empty_iff (hcall : call.length = 13) (hempty : cstr call = []) :
    cstr (tryCallsigns call index tokens).2 = [] ↔
      ∀ token ∈ tokens, storesFirst (unwrapped token) = false := by
  constructor
  · intro h token htoken
    apply Bool.eq_false_iff.mpr
    intro hstores
    exact tryCallsigns_stored hcall (Or.inr ⟨token, htoken, hstores⟩) h
  · intro hnothing
    rw [tryCallsigns_untouched hnothing, hempty]

end Tries

/-- An empty `transmitter_call`. -/
def noCall : List UInt8 := List.replicate 13 0

/-- What the validator says of a word. -/
def accepted (token : CString) : Bool := (normalizeJt9Callsign noCall token).1

theorem accepted_iff {token : CString} : accepted token = true ↔ IsCallsign (unwrapped token) :=
  normalizeJt9Callsign_accepts_iff

/-- The message of a line. -/
def lineMessage (line : CString) : CString :=
  match scanJt9Line line with
  | some fields => messageText line fields.messageOffset
  | none => []

/-- The callsign is empty or a callsign in normal form, and it is empty when every
word that was tried was refused. -/
structure CallIsNormal (line : CString) (result : Ft8DecodeResult) : Prop where
  normal : cstr result.transmitterCall = [] ∨
    (stationNormalizeCallsign noCall 13 (cstr result.transmitterCall)).1 = true ∧
      cstr (stationNormalizeCallsign noCall 13 (cstr result.transmitterCall)).2 =
        cstr result.transmitterCall
  nothingRefused : (∀ token ∈ triedTokens (lineMessage line), accepted token = false) →
    cstr result.transmitterCall = []

/-- One of the words that are tried is accepted, or none of them is stored in
part. -/
def callDecided (line : CString) : Bool :=
  let tokens := triedTokens (lineMessage line)
  tokens.any accepted || tokens.all fun token => !storesFirst (unwrapped token)

/-- The transmitter of a parsed line is what the words that are tried leave in the buffer,
which is cleared before. -/
theorem jt9ParseDecodeLine_call {line : CString} {result : Ft8DecodeResult}
    (h : jt9ParseDecodeLine line = some result) :
    result.transmitterCall = (tryCallsigns noCall 1 (triedTokens (lineMessage line))).2 := by
  obtain ⟨fields, hfields, h⟩ := Option.bind_eq_some_iff.mp h
  have hmessage : lineMessage line = messageText line fields.messageOffset := by
    rw [lineMessage, hfields]
  split at h
  · cases h
  dsimp only at h
  split at h
  · cases h
  obtain rfl := Option.some.inj h
  rw [decodeReportFields_call, hmessage]
  rfl

/-- The transmitter is an accepted callsign or none exactly when one of the words that are
tried is accepted or none of them writes into the buffer. A refused word is not taken back: the
validator copies it character by character before it knows whether there is a digit and a
letter. -/
theorem call_normal_iff {line : CString} {result : Ft8DecodeResult}
    (h : jt9ParseDecodeLine line = some result) :
    CallIsNormal line result ↔ callDecided line = true := by
  have hcall := jt9ParseDecodeLine_call h
  simp only [callDecided, Bool.or_eq_true, List.any_eq_true, List.all_eq_true,
    Bool.not_eq_true', accepted_iff]
  constructor
  · rintro ⟨-, hnothing⟩
    rcases Decidable.em (∃ token ∈ triedTokens (lineMessage line), accepted token = true)
      with ⟨token, htoken, haccepted⟩ | hrefused
    · exact Or.inl ⟨token, htoken, accepted_iff.mp haccepted⟩
    · refine Or.inr fun token htoken => Bool.eq_false_iff.mpr fun hstores => ?_
      have hempty := hnothing fun token htoken =>
        Bool.eq_false_iff.mpr fun haccepted => hrefused ⟨token, htoken, haccepted⟩
      rw [hcall] at hempty
      exact tryCallsigns_stored rfl (Or.inr ⟨token, htoken, hstores⟩) hempty
  · rintro (haccepted | hnothing)
    · obtain ⟨token, -, hcallsign, hstored⟩ :=
        tryCallsigns_accepted 1 (rfl : noCall.length = 13) haccepted
      have hnormal := hcallsign.map_toupper
      have hroom : ((unwrapped token).map toupper).length < 13 :=
        Nat.lt_succ_of_le hnormal.length.2
      rw [← hcall] at hstored
      refine ⟨Or.inr ?_, fun hrefused => ?_⟩
      · rw [hstored]
        refine ⟨stationNormalizeCallsign_accepts_iff.mpr ⟨hnormal, hroom⟩, ?_⟩
        rw [stationNormalizeCallsign_output hnormal hroom rfl, List.map_map]
        exact List.map_congr_left fun c _ => toupper_toupper c
      · obtain ⟨token, htoken, hcallsign⟩ := haccepted
        have hyes := accepted_iff.mpr hcallsign
        rw [hrefused token htoken] at hyes
        cases hyes
    · have hempty : cstr result.transmitterCall = [] := by
        rw [hcall, tryCallsigns_untouched hnothing]
        rfl
      exact ⟨Or.inl hempty, fun _ => hempty⟩

/-- A line from the jt9 process with a callsign in it. -/
def cqLine : CString := bytes "000000   0  0.8 1369 ~  CQ OK6LZ JN99"

theorem cqLine_accepted : (jt9ParseDecodeLine cqLine).isSome = true := by
  decide +kernel

/-- The line of a CQ has a callsign behind the `CQ`, which is accepted. -/
theorem cqLine_call_normal :
    CallIsNormal cqLine ((jt9ParseDecodeLine cqLine).get cqLine_accepted) :=
  (call_normal_iff (Option.some_get cqLine_accepted).symm).mpr (by decide +kernel)

/-- Free text. Its second word has no digit. -/
def freeTextLine : CString := bytes "110130 -16  1.0  990 ~  TNX BOB 73 GL"

theorem freeTextLine_accepted : (jt9ParseDecodeLine freeTextLine).isSome = true := by
  decide +kernel

/-- The refused word stays in `transmitter_call`. -/
theorem refused_word_stays : ¬ ∀ result, jt9ParseDecodeLine freeTextLine = some result →
    CallIsNormal freeTextLine result := by
  intro hall
  have hnormal := hall _ (Option.some_get freeTextLine_accepted).symm
  have hcall : cstr ((jt9ParseDecodeLine freeTextLine).get freeTextLine_accepted).transmitterCall =
      bytes "BOB" := by
    decide +kernel
  rcases hnormal.normal with hempty | ⟨haccepted, -⟩
  · rw [hcall] at hempty
    cases hempty
  · rw [hcall] at haccepted
    exact absurd haccepted (by decide +kernel)

end AirspyhfWsprd.Jt9
